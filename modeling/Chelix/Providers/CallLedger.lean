import Chelix.Agents.Model.StreamEvent
import Chelix.Library.Lists

/-!
# The ledger of a provider's calls

What a provider says of its function calls, whatever the wire protocol: a call is opened, with
or without a slot; the text of its arguments arrives in parts under its slot; its final text is
announced under its slot or with its identity.  The ledger is what has been said.
-/

namespace Chelix.Providers

open Chelix.Agents.Model Chelix.Common Chelix.Library List

/-! ## The ledger -/

/-- What a provider says of its calls. -/
inductive CallEvent where
  | opened (id : String) (slot : Option ℕ)
  /-- A part of the arguments of the call in the slot. -/
  | delta (slot : ℕ) (text : String)
  /-- The final arguments of the call in the slot. -/
  | done (slot : ℕ) (text : String)
  /-- A completed call with its final arguments. -/
  | item (id text : String)

structure ProviderCall where
  id : String
  slot : ℕ
  deltas : List String
  final : Option String
  deriving DecidableEq

/-- The final text of the arguments: what was announced, or the parts one after another. -/
def ProviderCall.finalText (c : ProviderCall) : String := c.final.getD (String.join c.deltas)

structure Ledger where
  calls : List ProviderCall
  /-- The slot of a call that comes without one. -/
  next : ℕ

variable {slot : ℕ} {c : ProviderCall} {id : String}

namespace Ledger

def empty : Ledger where
  calls := []
  next := 0

def ids (l : Ledger) : List String := l.calls.map ProviderCall.id

def slots (l : Ledger) : List ℕ := l.calls.map ProviderCall.slot

def add (l : Ledger) (id : String) (slot : ℕ) : Ledger where
  calls := l.calls ++ [{ id, slot, deltas := [], final := none }]
  next := max l.next ((slot + 1) % 2 ^ 64)

/-- Changes the call in a slot. -/
def modify (l : Ledger) (slot : ℕ) (f : ProviderCall → ProviderCall) : Ledger :=
  { l with calls := l.calls.map fun c => if c.slot = slot then f c else c }

def addDelta (l : Ledger) (slot : ℕ) (text : String) : Ledger :=
  l.modify slot fun c => { c with deltas := c.deltas ++ [text] }

def setFinal (l : Ledger) (slot : ℕ) (text : String) : Ledger :=
  l.modify slot fun c => { c with final := some text }

def inSlot (l : Ledger) (slot : ℕ) : Option ProviderCall :=
  l.calls.find? fun c => c.slot = slot

def withId (l : Ledger) (id : String) : Option ProviderCall :=
  l.calls.find? fun c => c.id = id

def step (l : Ledger) : CallEvent → Ledger
  | .opened id slot => l.add id (slot.getD l.next)
  | .delta slot text => l.addDelta slot text
  | .done slot text => l.setFinal slot text
  | .item id text =>
    match l.withId id with
    | some c => l.setFinal c.slot text
    | none => (l.add id l.next).setFinal l.next text

def steps (l : Ledger) (events : List CallEvent) : Ledger := events.foldl step l

/-- What is said next takes no identity and no slot a second time, and adds no part to a call
that is not open or whose final text was announced. -/
def Clear (l : Ledger) : CallEvent → Prop
  | .opened id slot => id ∉ l.ids ∧ slot.getD l.next ∉ l.slots
  | .delta slot _ => ∃ c ∈ l.calls, c.slot = slot ∧ c.final = none
  | .done _ _ => True
  | .item id _ => id ∈ l.ids ∨ l.next ∉ l.slots

def AllClear : Ledger → List CallEvent → Prop
  | _, [] => True
  | l, event :: events => l.Clear event ∧ AllClear (l.step event) events

instance (l : Ledger) : (event : CallEvent) → Decidable (l.Clear event)
  | .opened id slot => inferInstanceAs (Decidable (id ∉ l.ids ∧ slot.getD l.next ∉ l.slots))
  | .delta slot _ => inferInstanceAs (Decidable (∃ c ∈ l.calls, c.slot = slot ∧ c.final = none))
  | .done _ _ => inferInstanceAs (Decidable True)
  | .item id _ => inferInstanceAs (Decidable (id ∈ l.ids ∨ l.next ∉ l.slots))

instance allClearDecidable : (l : Ledger) → (events : List CallEvent) →
    Decidable (l.AllClear events)
  | _, [] => inferInstanceAs (Decidable True)
  | l, event :: events =>
    haveI := allClearDecidable (l.step event) events
    inferInstanceAs (Decidable (l.Clear event ∧ AllClear (l.step event) events))

variable {l : Ledger}

theorem allClear_append {events events' : List CallEvent} :
    AllClear l (events ++ events') ↔ AllClear l events ∧ AllClear (l.steps events) events' := by
  induction events generalizing l with
  | nil => exact ⟨fun h => ⟨trivial, h⟩, fun h => h.2⟩
  | cons event events ih => simp only [cons_append, AllClear, ih, and_assoc, steps,
      foldl_cons]

theorem steps_append (l : Ledger) (events events' : List CallEvent) :
    l.steps (events ++ events') = (l.steps events).steps events' :=
  foldl_append

variable {f : ProviderCall → ProviderCall}

theorem mem_modify :
    c ∈ (l.modify slot f).calls ↔ ∃ c' ∈ l.calls, (if c'.slot = slot then f c' else c') = c :=
  mem_map

theorem map_modify {β : Type} {g : ProviderCall → β} (hg : ∀ c, g (f c) = g c) :
    (l.modify slot f).calls.map g = l.calls.map g := by
  rw [modify, map_map]
  refine map_congr_left fun c _ => ?_
  show g (if c.slot = slot then f c else c) = g c
  split
  · exact hg c
  · rfl

section Lookups

variable {l : Ledger} {c c' : ProviderCall}

theorem eq_of_slot (h : l.slots.Nodup) (hc : c ∈ l.calls) (hc' : c' ∈ l.calls)
    (heq : c.slot = c'.slot) : c = c' :=
  inj_on_of_nodup_map h hc hc' heq

theorem eq_of_id (h : l.ids.Nodup) (hc : c ∈ l.calls) (hc' : c' ∈ l.calls)
    (heq : c.id = c'.id) : c = c' :=
  inj_on_of_nodup_map h hc hc' heq

theorem inSlot_eq_some_iff (h : l.slots.Nodup) :
    l.inSlot slot = some c ↔ c ∈ l.calls ∧ c.slot = slot :=
  find?_key_eq_some_iff h

theorem inSlot_add (h : slot ∉ l.slots) (slot' : ℕ) :
    (l.add id slot).inSlot slot' =
      if slot' = slot then some { id, slot, deltas := [], final := none } else l.inSlot slot' := by
  rw [inSlot, add, List.find?_append]
  by_cases heq : slot' = slot
  · subst heq
    rw [if_pos rfl, find?_key_eq_none_iff.mpr h]
    simp
  · rw [if_neg heq, List.find?_cons_of_neg (by simpa using Ne.symm heq), List.find?_nil,
      Option.or_none]
    rfl

/-- Where the identity of the call in a slot is all that matters, changes of calls are not
seen. -/
theorem inSlot_modify (hslot : ∀ c, (f c).slot = c.slot) (hid : ∀ c, (f c).id = c.id) (slot' : ℕ) :
    ((l.modify slot f).inSlot slot').map ProviderCall.id =
      (l.inSlot slot').map ProviderCall.id := by
  rw [inSlot, modify, List.find?_map, Option.map_map, inSlot]
  have hkey : ∀ c : ProviderCall, (if c.slot = slot then f c else c).slot = c.slot := by
    intro c
    split
    · exact hslot c
    · rfl
  have hids : ProviderCall.id ∘ (fun c => if c.slot = slot then f c else c) = ProviderCall.id := by
    funext c
    show (if c.slot = slot then f c else c).id = c.id
    split
    · exact hid c
    · rfl
  rw [hids]
  simp only [Function.comp_def, hkey]

theorem inSlot_addDelta (l : Ledger) (slot : ℕ) (text : String) (slot' : ℕ) :
    ((l.addDelta slot text).inSlot slot').map ProviderCall.id =
      (l.inSlot slot').map ProviderCall.id := by
  rw [addDelta]
  exact inSlot_modify (by intro _; rfl) (by intro _; rfl) slot'

theorem inSlot_setFinal (l : Ledger) (slot : ℕ) (text : String) (slot' : ℕ) :
    ((l.setFinal slot text).inSlot slot').map ProviderCall.id =
      (l.inSlot slot').map ProviderCall.id := by
  rw [setFinal]
  exact inSlot_modify (by intro _; rfl) (by intro _; rfl) slot'

theorem withId_eq_some_iff (h : l.ids.Nodup) : l.withId id = some c ↔ c ∈ l.calls ∧ c.id = id :=
  find?_key_eq_some_iff h

theorem withId_eq_none_iff : l.withId id = none ↔ id ∉ l.ids :=
  find?_key_eq_none_iff

end Lookups

end Ledger

/-! ## The events of a stream -/

/-- What happens in one slot of a stream. -/
inductive SlotEvent where
  | start (id : String)
  | delta (text : String)
  | complete
  deriving DecidableEq

def slotEvent (slot : ℕ) : StreamEvent → Option SlotEvent
  | .toolCallStart id _ index => if index = slot then some (.start id) else none
  | .toolCallArgumentsDelta index text => if index = slot then some (.delta text) else none
  | .toolCallComplete index => if index = slot then some .complete else none
  | _ => none

def slotEvents (slot : ℕ) (events : List StreamEvent) : List SlotEvent :=
  events.filterMap (slotEvent slot)

def startedCall : StreamEvent → Option (String × ℕ)
  | .toolCallStart id _ index => some (id, index)
  | _ => none

/-- The calls that are started, with their slots. -/
def starts (events : List StreamEvent) : List (String × ℕ) := events.filterMap startedCall

def itemDelta (id : String) : StreamEvent → Option String
  | .providerItemUpdate { itemId := itemId, payload := .functionCallDelta delta, .. } =>
    if itemId = id then some delta else none
  | _ => none

def itemDone (id : String) : StreamEvent → Option String
  | .providerItemUpdate { itemId := itemId, payload := .functionCallDone arguments, .. } =>
    if itemId = id then some arguments else none
  | _ => none

/-- The parts of the arguments that the item of a call receives. -/
def itemDeltas (id : String) (events : List StreamEvent) : List String :=
  events.filterMap (itemDelta id)

/-- The last arguments announced for the item of a call. -/
def lastDone (id : String) (events : List StreamEvent) : Option String :=
  (events.filterMap (itemDone id)).getLast?

/-- **Every call is handed on once.** -/
structure DeliversOnce (calls : List ProviderCall) (events : List StreamEvent) : Prop where
  /-- One start for each identity, and the slots are distinct. -/
  ids_nodup : (calls.map ProviderCall.id).Nodup
  slots_nodup : (calls.map ProviderCall.slot).Nodup
  started : starts events = calls.map fun c => (c.id, c.slot)
  /-- In its slot a call is started, gets its parts, and is completed once behind them. -/
  slot : ∀ c ∈ calls,
    slotEvents c.slot events = .start c.id :: c.deltas.map .delta ++ [.complete]
  /-- Nothing happens in any other slot. -/
  vacant : ∀ slot, slot ∉ calls.map ProviderCall.slot → slotEvents slot events = []
  /-- The item of the call receives the same parts. -/
  items : ∀ c ∈ calls, itemDeltas c.id events = c.deltas
  /-- The last announced arguments, or the parts where there are none, are the final text. -/
  final : ∀ c ∈ calls,
    (lastDone c.id events).getD (String.join (itemDeltas c.id events)) = c.finalText

theorem DeliversOnce.starts_nodup {calls : List ProviderCall} {events : List StreamEvent}
    (h : DeliversOnce calls events) :
    ((starts events).map Prod.fst).Nodup ∧ ((starts events).map Prod.snd).Nodup := by
  rw [h.started, map_map, map_map]
  exact ⟨h.ids_nodup, h.slots_nodup⟩

/-! ## Before the end of the stream -/

/-- The events emitted so far hand the calls of the ledger on; those whose final text was
announced are completed. -/
structure Records (events : List StreamEvent) (l : Ledger) : Prop where
  ids_nodup : l.ids.Nodup
  slots_nodup : l.slots.Nodup
  started : starts events = l.calls.map fun c => (c.id, c.slot)
  slot : ∀ c ∈ l.calls, slotEvents c.slot events =
    .start c.id :: c.deltas.map .delta ++ if c.final.isSome then [.complete] else []
  vacant : ∀ slot, slot ∉ l.slots → slotEvents slot events = []
  items : ∀ c ∈ l.calls, itemDeltas c.id events = c.deltas
  done : ∀ c ∈ l.calls, lastDone c.id events = c.final
  unknown : ∀ id, id ∉ l.ids → itemDeltas id events = [] ∧ lastDone id events = none

section Traces

variable (events tail : List StreamEvent)

theorem slotEvents_append (slot : ℕ) :
    slotEvents slot (events ++ tail) = slotEvents slot events ++ slotEvents slot tail :=
  filterMap_append

theorem starts_append : starts (events ++ tail) = starts events ++ starts tail :=
  filterMap_append

theorem itemDeltas_append (id : String) :
    itemDeltas id (events ++ tail) = itemDeltas id events ++ itemDeltas id tail :=
  filterMap_append

theorem lastDone_append (id : String) :
    lastDone id (events ++ tail) = (lastDone id tail).or (lastDone id events) := by
  rw [lastDone, filterMap_append, List.getLast?_append]
  rfl

end Traces

/-- An event that says nothing of a call. -/
structure Quiet (event : StreamEvent) : Prop where
  slot : ∀ slot, slotEvent slot event = none
  start : startedCall event = none
  delta : ∀ id, itemDelta id event = none
  done : ∀ id, itemDone id event = none

/-- The updates that carry no arguments of a call. -/
def carriesArguments : ProviderItemUpdatePayload → Bool
  | .functionCallDelta _ => true
  | .functionCallDone _ => true
  | _ => false

variable {update : ProviderItemUpdate}

theorem quiet_item (h : carriesArguments update.payload = false) :
    Quiet (.providerItemUpdate update) := by
  obtain ⟨segmentId, itemId, position, updateSeq, payload⟩ := update
  cases payload <;> first | exact ⟨fun _ => rfl, rfl, fun _ => rfl, fun _ => rfl⟩ | cases h

theorem quiet_delta (text : String) : Quiet (.delta text) :=
  ⟨fun _ => rfl, rfl, fun _ => rfl, fun _ => rfl⟩

theorem quiet_raw (raw : Json) : Quiet (.providerRaw raw) :=
  ⟨fun _ => rfl, rfl, fun _ => rfl, fun _ => rfl⟩

theorem quiet_segmentStart (id : ProviderSegmentId) : Quiet (.segmentStart id) :=
  ⟨fun _ => rfl, rfl, fun _ => rfl, fun _ => rfl⟩

theorem quiet_segmentClose (id : ProviderSegmentId) (outcome : ProviderSegmentOutcome)
    (usage : Option Usage) : Quiet (.segmentClose id outcome usage) :=
  ⟨fun _ => rfl, rfl, fun _ => rfl, fun _ => rfl⟩

theorem quiet_done (usage : Usage) : Quiet (.done usage) :=
  ⟨fun _ => rfl, rfl, fun _ => rfl, fun _ => rfl⟩

theorem quiet_tail {tail : List StreamEvent} (h : ∀ e ∈ tail, Quiet e) :
    (∀ slot, slotEvents slot tail = []) ∧ starts tail = [] ∧
      (∀ id, itemDeltas id tail = []) ∧ ∀ id, lastDone id tail = none := by
  refine ⟨fun slot => ?_, ?_, fun id => ?_, fun id => ?_⟩
  · exact filterMap_eq_nil_iff.mpr fun e he => (h e he).slot slot
  · exact filterMap_eq_nil_iff.mpr fun e he => (h e he).start
  · exact filterMap_eq_nil_iff.mpr fun e he => (h e he).delta id
  · rw [lastDone, filterMap_eq_nil_iff.mpr fun e he => (h e he).done id]
    rfl

namespace Records

variable {events tail : List StreamEvent} {l : Ledger}

theorem empty : Records [] .empty where
  ids_nodup := nodup_nil
  slots_nodup := nodup_nil
  started := rfl
  slot := fun _ h => (nomatch h)
  vacant := fun _ _ => rfl
  items := fun _ h => (nomatch h)
  done := fun _ h => (nomatch h)
  unknown := fun _ _ => ⟨rfl, rfl⟩

theorem quiet (h : Records events l) (htail : ∀ e ∈ tail, Quiet e) : Records (events ++ tail) l := by
  obtain ⟨hslot, hstart, hdelta, hdone⟩ := quiet_tail htail
  constructor
  · exact h.ids_nodup
  · exact h.slots_nodup
  · rw [starts_append, hstart, append_nil, h.started]
  · intro c hc
    rw [slotEvents_append, hslot, append_nil, h.slot c hc]
  · intro slot hvacant
    rw [slotEvents_append, hslot, append_nil, h.vacant slot hvacant]
  · intro c hc
    rw [itemDeltas_append, hdelta, append_nil, h.items c hc]
  · intro c hc
    rw [lastDone_append, hdone, Option.none_or, h.done c hc]
  · intro id hid
    rw [itemDeltas_append, lastDone_append, hdelta, hdone, append_nil, Option.none_or]
    exact h.unknown id hid

theorem push (h : Records events l) {e : StreamEvent} (he : Quiet e) :
    Records (events ++ [e]) l :=
  h.quiet (forall_mem_singleton.mpr he)

theorem start (h : Records events l) {name : String} (hid : id ∉ l.ids) (hslot : slot ∉ l.slots) :
    Records (events ++ [.toolCallStart id name slot]) (l.add id slot) := by
  have hother : ∀ c ∈ l.calls, slot ≠ c.slot := by
    rintro c hc rfl
    exact hslot (mem_map_of_mem hc)
  have htrace : ∀ slot', slotEvents slot' [.toolCallStart id name slot] =
      if slot = slot' then [.start id] else [] := by
    intro slot'
    by_cases heq : slot = slot' <;> simp [slotEvents, slotEvent, heq]
  have hdeltas : ∀ id', itemDeltas id' [.toolCallStart id name slot] = [] := fun _ => rfl
  have hdone : ∀ id', lastDone id' [.toolCallStart id name slot] = none := fun _ => rfl
  constructor
  · rw [Ledger.ids, Ledger.add, map_append]
    exact nodup_append.mpr ⟨h.ids_nodup, nodup_singleton id, fun a ha b hb => by
      rw [mem_singleton.mp hb]
      rintro rfl
      exact hid ha⟩
  · rw [Ledger.slots, Ledger.add, map_append]
    exact nodup_append.mpr ⟨h.slots_nodup, nodup_singleton slot, fun a ha b hb => by
      rw [mem_singleton.mp hb]
      rintro rfl
      exact hslot ha⟩
  · rw [starts_append, h.started, Ledger.add, map_append]
    rfl
  · intro c hc
    rw [slotEvents_append, htrace]
    rcases mem_append.mp hc with hc | hc
    · rw [if_neg (hother c hc), append_nil]
      exact h.slot c hc
    · rw [mem_singleton.mp hc, if_pos rfl, h.vacant slot hslot]
      rfl
  · intro slot' hvacant
    rw [Ledger.slots, Ledger.add, map_append, mem_append, not_or] at hvacant
    have hne : slot ≠ slot' := by
      rintro rfl
      exact hvacant.2 (mem_singleton_self _)
    rw [slotEvents_append, htrace, if_neg hne, append_nil]
    exact h.vacant slot' hvacant.1
  · intro c hc
    rw [itemDeltas_append, hdeltas, append_nil]
    rcases mem_append.mp hc with hc | hc
    · exact h.items c hc
    · rw [mem_singleton.mp hc]
      exact (h.unknown id hid).1
  · intro c hc
    rw [lastDone_append, hdone, Option.none_or]
    rcases mem_append.mp hc with hc | hc
    · exact h.done c hc
    · rw [mem_singleton.mp hc]
      exact (h.unknown id hid).2
  · intro id' hid'
    rw [Ledger.ids, Ledger.add, map_append, mem_append, not_or] at hid'
    rw [itemDeltas_append, lastDone_append, hdeltas, hdone, append_nil, Option.none_or]
    exact h.unknown id' hid'.1

theorem delta (h : Records events l) (hc : c ∈ l.calls) (hopen : c.final = none) {text : String}
    (hitem : update.itemId = c.id) (hpayload : update.payload = .functionCallDelta text) :
    Records (events ++ [.providerItemUpdate update, .toolCallArgumentsDelta c.slot text])
      (l.addDelta c.slot text) := by
  obtain ⟨segmentId, itemId, position, updateSeq, payload⟩ := update
  subst hitem hpayload
  have hids : (l.addDelta c.slot text).ids = l.ids := Ledger.map_modify fun _ => rfl
  have hslots : (l.addDelta c.slot text).slots = l.slots := Ledger.map_modify fun _ => rfl
  have hcalls : (l.addDelta c.slot text).calls.map (fun c => (c.id, c.slot)) =
      l.calls.map fun c => (c.id, c.slot) := Ledger.map_modify fun _ => rfl
  generalize htail : [StreamEvent.providerItemUpdate ⟨segmentId, c.id, position, updateSeq,
    .functionCallDelta text⟩, .toolCallArgumentsDelta c.slot text] = tail
  have htrace : ∀ slot, slotEvents slot tail = if c.slot = slot then [.delta text] else [] := by
    intro slot
    subst htail
    by_cases heq : c.slot = slot <;> simp [slotEvents, slotEvent, filterMap_cons, heq]
  have hdeltas : ∀ id, itemDeltas id tail = if c.id = id then [text] else [] := by
    intro id
    subst htail
    by_cases heq : c.id = id <;> simp [itemDeltas, itemDelta, filterMap_cons, heq]
  have hdone : ∀ id, lastDone id tail = none := by
    intro id
    subst htail
    rfl
  have hstarts : starts tail = [] := by
    subst htail
    rfl
  constructor
  · rw [hids]
    exact h.ids_nodup
  · rw [hslots]
    exact h.slots_nodup
  · rw [starts_append, hstarts, append_nil, h.started, hcalls]
  · intro c' hc'
    obtain ⟨c₀, hc₀, rfl⟩ := Ledger.mem_modify.mp hc'
    rw [slotEvents_append, htrace]
    by_cases heq : c₀.slot = c.slot
    · obtain rfl := Ledger.eq_of_slot h.slots_nodup hc₀ hc heq
      rw [if_pos rfl, if_pos rfl, h.slot c₀ hc₀, hopen]
      simp
    · rw [if_neg heq, if_neg (Ne.symm heq), append_nil]
      exact h.slot c₀ hc₀
  · intro slot hvacant
    rw [hslots] at hvacant
    have hne : c.slot ≠ slot := by
      rintro rfl
      exact hvacant (mem_map_of_mem hc)
    rw [slotEvents_append, htrace, if_neg hne, append_nil]
    exact h.vacant slot hvacant
  · intro c' hc'
    obtain ⟨c₀, hc₀, rfl⟩ := Ledger.mem_modify.mp hc'
    rw [itemDeltas_append, hdeltas]
    by_cases heq : c₀.slot = c.slot
    · obtain rfl := Ledger.eq_of_slot h.slots_nodup hc₀ hc heq
      rw [if_pos rfl, if_pos rfl, h.items c₀ hc₀]
    · have hne : c.id ≠ c₀.id := fun hid => heq (by
        rw [Ledger.eq_of_id h.ids_nodup hc₀ hc hid.symm])
      rw [if_neg heq, if_neg hne, append_nil]
      exact h.items c₀ hc₀
  · intro c' hc'
    obtain ⟨c₀, hc₀, rfl⟩ := Ledger.mem_modify.mp hc'
    rw [lastDone_append, hdone, Option.none_or]
    split
    · exact h.done c₀ hc₀
    · exact h.done c₀ hc₀
  · intro id hid
    rw [hids] at hid
    have hne : c.id ≠ id := by
      rintro rfl
      exact hid (mem_map_of_mem hc)
    rw [itemDeltas_append, lastDone_append, hdeltas, hdone, if_neg hne, append_nil,
      Option.none_or]
    exact h.unknown id hid

theorem finish (h : Records events l) (hc : c ∈ l.calls) {text : String}
    (hitem : update.itemId = c.id) (hpayload : update.payload = .functionCallDone text) :
    Records (events ++ .providerItemUpdate update ::
        if c.final.isSome then [] else [.toolCallComplete c.slot])
      (l.setFinal c.slot text) := by
  obtain ⟨segmentId, itemId, position, updateSeq, payload⟩ := update
  subst hitem hpayload
  have hids : (l.setFinal c.slot text).ids = l.ids := Ledger.map_modify fun _ => rfl
  have hslots : (l.setFinal c.slot text).slots = l.slots := Ledger.map_modify fun _ => rfl
  have hcalls : (l.setFinal c.slot text).calls.map (fun c => (c.id, c.slot)) =
      l.calls.map fun c => (c.id, c.slot) := Ledger.map_modify fun _ => rfl
  generalize htail : (StreamEvent.providerItemUpdate ⟨segmentId, c.id, position, updateSeq,
    .functionCallDone text⟩ :: if c.final.isSome then [] else [.toolCallComplete c.slot]) = tail
  have htrace : ∀ slot, slotEvents slot tail =
      if c.slot = slot ∧ c.final = none then [.complete] else [] := by
    intro slot
    subst htail
    cases hfinal : c.final with
    | none => by_cases heq : c.slot = slot <;> simp [slotEvents, slotEvent, filterMap_cons, heq]
    | some final => simp [slotEvents, slotEvent, filterMap_cons]
  have hdeltas : ∀ id, itemDeltas id tail = [] := by
    intro id
    subst htail
    split <;> rfl
  have hdone : ∀ id, lastDone id tail = if c.id = id then some text else none := by
    intro id
    subst htail
    split <;> by_cases heq : c.id = id <;>
      simp [lastDone, itemDone, filterMap_cons, heq]
  have hstarts : starts tail = [] := by
    subst htail
    split <;> rfl
  constructor
  · rw [hids]
    exact h.ids_nodup
  · rw [hslots]
    exact h.slots_nodup
  · rw [starts_append, hstarts, append_nil, h.started, hcalls]
  · intro c' hc'
    obtain ⟨c₀, hc₀, rfl⟩ := Ledger.mem_modify.mp hc'
    rw [slotEvents_append, htrace]
    by_cases heq : c₀.slot = c.slot
    · obtain rfl := Ledger.eq_of_slot h.slots_nodup hc₀ hc heq
      rw [if_pos rfl, h.slot c₀ hc₀]
      cases hfinal : c₀.final <;> simp
    · rw [if_neg heq, if_neg (fun hand => heq hand.1.symm), append_nil]
      exact h.slot c₀ hc₀
  · intro slot hvacant
    rw [hslots] at hvacant
    have hne : c.slot ≠ slot := by
      rintro rfl
      exact hvacant (mem_map_of_mem hc)
    rw [slotEvents_append, htrace, if_neg (fun hand => hne hand.1), append_nil]
    exact h.vacant slot hvacant
  · intro c' hc'
    obtain ⟨c₀, hc₀, rfl⟩ := Ledger.mem_modify.mp hc'
    rw [itemDeltas_append, hdeltas, append_nil]
    split
    · exact h.items c₀ hc₀
    · exact h.items c₀ hc₀
  · intro c' hc'
    obtain ⟨c₀, hc₀, rfl⟩ := Ledger.mem_modify.mp hc'
    rw [lastDone_append, hdone]
    by_cases heq : c₀.slot = c.slot
    · obtain rfl := Ledger.eq_of_slot h.slots_nodup hc₀ hc heq
      rw [if_pos rfl, if_pos rfl]
      rfl
    · have hne : c.id ≠ c₀.id := fun hid => heq (by
        rw [Ledger.eq_of_id h.ids_nodup hc₀ hc hid.symm])
      rw [if_neg heq, if_neg hne, Option.none_or]
      exact h.done c₀ hc₀
  · intro id hid
    rw [hids] at hid
    have hne : c.id ≠ id := by
      rintro rfl
      exact hid (mem_map_of_mem hc)
    rw [itemDeltas_append, lastDone_append, hdeltas, hdone, if_neg hne, append_nil,
      Option.none_or]
    exact h.unknown id hid

theorem complete (h : Records events l) {pending : List ℕ} (hnodup : pending.Nodup)
    (hpending : ∀ slot, slot ∈ pending ↔ ∃ c ∈ l.calls, c.slot = slot ∧ c.final = none)
    (htail : ∀ e ∈ tail, Quiet e) :
    DeliversOnce l.calls (events ++ (pending.map .toolCallComplete ++ tail)) := by
  obtain ⟨hslot, hstart, hdelta, hdone⟩ := quiet_tail htail
  have htrace : ∀ slot, slotEvents slot (pending.map .toolCallComplete) =
      if slot ∈ pending then [.complete] else [] := by
    intro slot
    clear hpending
    induction pending with
    | nil => rfl
    | cons first rest ih =>
      obtain ⟨hnot, hrest⟩ := nodup_cons.mp hnodup
      have hcons : slotEvents slot ((first :: rest).map .toolCallComplete) =
          (if first = slot then [.complete] else []) ++
            slotEvents slot (rest.map .toolCallComplete) := by
        by_cases heq : first = slot <;> simp [slotEvents, slotEvent, heq]
      rw [hcons, ih hrest]
      by_cases heq : first = slot
      · subst heq
        rw [if_pos rfl, if_neg hnot, if_pos mem_cons_self]
        rfl
      · rw [if_neg heq, nil_append]
        simp only [mem_cons, Ne.symm heq, false_or]
  have hnone : starts (pending.map .toolCallComplete) = [] ∧
      ∀ id, itemDeltas id (pending.map .toolCallComplete) = [] ∧
        lastDone id (pending.map .toolCallComplete) = none := by
    have hevery : ∀ {β : Type} (f : StreamEvent → Option β),
        (∀ slot, f (.toolCallComplete slot) = none) →
          (pending.map StreamEvent.toolCallComplete).filterMap f = [] := by
      intro β f hf
      refine filterMap_eq_nil_iff.mpr fun e he => ?_
      obtain ⟨slot, -, rfl⟩ := mem_map.mp he
      exact hf slot
    refine ⟨hevery _ fun _ => rfl, fun id => ⟨hevery _ fun _ => rfl, ?_⟩⟩
    rw [lastDone, hevery _ fun _ => rfl]
    rfl
  constructor
  · exact h.ids_nodup
  · exact h.slots_nodup
  · rw [starts_append, starts_append, hnone.1, hstart, append_nil, append_nil,
      h.started]
  · intro c hc
    rw [slotEvents_append, slotEvents_append, hslot, append_nil, htrace, h.slot c hc]
    cases hfinal : c.final with
    | none =>
      rw [if_pos ((hpending c.slot).mpr ⟨c, hc, rfl, hfinal⟩)]
      simp
    | some final =>
      have hnot : c.slot ∉ pending := by
        intro hmem
        obtain ⟨c', hc', heq, hnone'⟩ := (hpending c.slot).mp hmem
        rw [Ledger.eq_of_slot h.slots_nodup hc' hc heq, hfinal] at hnone'
        cases hnone'
      rw [if_neg hnot]
      simp
  · intro slot hvacant
    have hnot : slot ∉ pending := by
      intro hmem
      obtain ⟨c, hc, rfl, -⟩ := (hpending slot).mp hmem
      exact hvacant (mem_map_of_mem hc)
    rw [slotEvents_append, slotEvents_append, hslot, append_nil, htrace, if_neg hnot,
      append_nil]
    exact h.vacant slot hvacant
  · intro c hc
    rw [itemDeltas_append, itemDeltas_append, (hnone.2 c.id).1, hdelta, append_nil,
      append_nil]
    exact h.items c hc
  · intro c hc
    rw [lastDone_append, lastDone_append, (hnone.2 c.id).2, hdone, Option.none_or, Option.none_or,
      itemDeltas_append, itemDeltas_append, (hnone.2 c.id).1, hdelta, append_nil,
      append_nil, h.done c hc, h.items c hc]
    rfl

end Records

end Chelix.Providers
