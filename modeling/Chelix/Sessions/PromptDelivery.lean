import Chelix.Library.Results
import Chelix.Sessions.PromptQueue

/-!
# Where a queued prompt is

A prompt that was inserted is still in the table, or in the batch of one drain call, or was
deleted by a removal or a clearing.  The batch of a drain call is lost with the call, if its
client drops it after the command was sent.
-/

namespace Chelix.Sessions

open Option

open Chelix.Library CriticalSection List

/-! ## Runs -/

/-- A service with the rows that its calls inserted, in order, and those that its calls removed
or cleared. -/
structure QueueRun (Content : Type) where
  service : QueueService Content
  inserted : List (ℕ × QueuedPromptRow)
  deleted : List (ℕ × QueuedPromptRow)

section Steps

variable {Content : Type} (codec : PromptCodec Content)

/-- The commands that delete rows for good. -/
def Command.deletes : Command Content → Bool
  | .remove _ | .clear _ => true
  | .enqueue _ _ | .drain _ | .status _ => false

namespace QueueRun

def start (table : QueueTable) : QueueRun Content where
  service := .new table
  inserted := []
  deleted := []

/-- The loop has served a command, and is about to reply. -/
def served (s : QueueRun Content) (call : ℕ) (rest : List ℕ) (command : Command Content)
    (fault : QueueFault) : QueueRun Content where
  service := { s.service with
    table := (command.serve codec fault s.service.table).2
    channel := rest
    replying := some (call, (command.serve codec fault s.service.table).1) }
  inserted := s.inserted ++
    ((command.serve codec fault s.service.table).2.rows.filter
      fun row => row ∉ s.service.table.rows).map fun row => (call, row)
  deleted := s.deleted ++
    if command.deletes then
      (s.service.table.rows.filter fun row =>
        row ∉ (command.serve codec fault s.service.table).2.rows).map fun row => (call, row)
    else []

end QueueRun

/-- The phase of a call once the loop has sent its reply: a call that was dropped stays so. -/
def CallPhase.afterReply (reply : Reply Content) : CallPhase Content → CallPhase Content
  | .cancelled => .cancelled
  | _ => .replied reply

/-- A call that its client still waits for. -/
def CallPhase.waiting : CallPhase Content → Bool
  | .sending | .sent | .replied _ => true
  | .returned _ | .cancelled => false

inductive QueueStep : QueueRun Content → QueueEvent Content → QueueRun Content → Prop
  | start {s : QueueRun Content} {call : ℕ} {command : Command Content} :
      s.service.calls[call]? = none →
      QueueStep s (.start call command)
        { s with service := s.service.setCall call command .sending }
  | send {s : QueueRun Content} {call : ℕ} {command : Command Content} :
      s.service.calls[call]? = some ⟨command, .sending⟩ →
      s.service.channel.length < commandChannelCapacity →
      QueueStep s (.send call)
        { s with service := { s.service.setCall call command .sent with
            channel := s.service.channel ++ [call] } }
  | serve {s : QueueRun Content} {call : ℕ} {rest : List ℕ} {command : Command Content}
      {phase : CallPhase Content} {fault : QueueFault} :
      s.service.replying = none → s.service.channel = call :: rest →
      s.service.calls[call]? = some ⟨command, phase⟩ →
      QueueStep s (.serve fault) (s.served codec call rest command fault)
  | reply {s : QueueRun Content} {call : ℕ} {reply : Reply Content} {command : Command Content}
      {phase : CallPhase Content} :
      s.service.replying = some (call, reply) →
      s.service.calls[call]? = some ⟨command, phase⟩ →
      QueueStep s .reply
        { s with service := { s.service.setCall call command (phase.afterReply reply) with
            replying := none } }
  | receive {s : QueueRun Content} {call : ℕ} {command : Command Content}
      {reply : Reply Content} :
      s.service.calls[call]? = some ⟨command, .replied reply⟩ →
      QueueStep s (.receive call)
        { s with service := s.service.setCall call command (.returned reply) }
  | cancel {s : QueueRun Content} {call : ℕ} {command : Command Content}
      {phase : CallPhase Content} :
      s.service.calls[call]? = some ⟨command, phase⟩ → phase.waiting = true →
      QueueStep s (.cancel call)
        { s with service := s.service.setCall call command .cancelled }

end Steps

/-! ## The places of a prompt -/

section Places

variable {Content : Type}

/-- The reply of the loop to a call in some phase. -/
def CallPhase.reply (sending : Option (Reply Content)) :
    CallPhase Content → Option (Reply Content)
  | .replied reply | .returned reply => some reply
  | .sent => sending
  | .sending | .cancelled => none

/-- The reply that the loop is about to send to a call. -/
def QueueRun.sendingTo (s : QueueRun Content) (call : ℕ) : Option (Reply Content) :=
  s.service.replying.bind fun sending => if sending.1 = call then some sending.2 else none

/-- The reply that a client has, or that is on its way to a client who waits for it. -/
def QueueRun.replyOf (s : QueueRun Content) (call : ℕ) : Option (Reply Content) :=
  s.service.calls[call]?.bind fun entry => entry.phase.reply (s.sendingTo call)

def QueueRun.commandOf (s : QueueRun Content) (call : ℕ) : Option (Command Content) :=
  s.service.calls[call]?.map Call.command

def Reply.batch : Reply Content → Option (QueuedPromptsDrain Content)
  | .drain (.ok batch) => some batch
  | _ => none

/-- The batch that a client has drained. -/
def QueueRun.batchOf (s : QueueRun Content) (call : ℕ) : Option (QueuedPromptsDrain Content) :=
  (s.replyOf call).bind Reply.batch

/-- A step loses no batch: no call is dropped that has prompts on their way to it, and no drain
command of a dropped call finds prompts. -/
def KeepsBatches (s : QueueRun Content) : QueueEvent Content → Prop
  | .cancel call => ∀ drain, s.batchOf call = some drain → drain.prompts = []
  | .serve _ => ∀ call sessionId, s.service.channel.head? = some call →
      s.service.calls[call]? = some ⟨.drain sessionId, .cancelled⟩ →
      ∀ row ∈ s.service.table.rows, row.sessionKey ≠ sessionId
  | _ => True

variable (codec : PromptCodec Content)

def Decodes (row : QueuedPromptRow) (prompt : QueuedPrompt Content) : Prop :=
  prompt.id = row.id ∧ prompt.sessionId = row.sessionKey ∧
    codec.fromJson row.content = .ok prompt.content

def Holds (s : QueueRun Content) (row : QueuedPromptRow) (call : ℕ) : Prop :=
  ∃ drain, s.batchOf call = some drain ∧ ∃ prompt ∈ drain.prompts, Decodes codec row prompt

def Deleted (s : QueueRun Content) (row : QueuedPromptRow) : Prop :=
  ∃ call, (call, row) ∈ s.deleted

/-- A prompt is in the queue, or was deleted, or is in the batch of exactly one drain call, and
only one of these. -/
def InOnePlace (s : QueueRun Content) (row : QueuedPromptRow) : Prop :=
  (row ∈ s.service.table.rows ∧ ¬Deleted s row ∧ ∀ call, ¬Holds codec s row call) ∨
    (row ∉ s.service.table.rows ∧ Deleted s row ∧ ∀ call, ¬Holds codec s row call) ∨
    (row ∉ s.service.table.rows ∧ ¬Deleted s row ∧ ∃! call, Holds codec s row call)

theorem InOnePlace.congr {s t : QueueRun Content} {row : QueuedPromptRow}
    (h : InOnePlace codec s row)
    (htable : row ∈ t.service.table.rows ↔ row ∈ s.service.table.rows)
    (hdeleted : Deleted t row ↔ Deleted s row)
    (hholds : ∀ call, Holds codec t row call ↔ Holds codec s row call) :
    InOnePlace codec t row := by
  unfold InOnePlace
  simp only [htable, hdeleted, hholds]
  exact h

end Places

/-! ## What one command does -/

variable {sessionId : SessionKey}

section Serve

variable {Content : Type} {codec : PromptCodec Content}

variable {e : Error}

theorem transaction_error {α : Type} {x : QueueOperation α} {t t' : QueueTable}
    (h : transaction x t = .error e t') : t' = t := by
  unfold transaction at h
  cases hx : x t with
  | ok a s =>
    rw [hx] at h
    cases h
  | error e' s =>
    rw [hx] at h
    cases h
    rfl

theorem transaction_ok {α : Type} {x : QueueOperation α} {t t' : QueueTable} {a : α}
    (h : transaction x t = .ok a t') : x t = .ok a t' := by
  unfold transaction at h
  cases hx : x t with
  | ok b s =>
    rw [hx] at h
    exact h
  | error e s =>
    rw [hx] at h
    cases h

namespace QueuedPromptsStore

variable {fault : QueueFault} {t t' : QueueTable}

theorem insert_ok_iff {sessionKey content : String} :
    t.insert sessionKey content = .ok t' ↔
      t.lastId + 1 < 2 ^ 63 ∧ t' = t.push sessionKey content := by
  unfold QueueTable.insert
  split
  · rename_i hlt
    exact ⟨fun h => ⟨hlt, (Except.ok.inj h).symm⟩, fun h => congrArg Except.ok h.2.symm⟩
  · rename_i hlt
    exact ⟨fun h => (by cases h), fun h => absurd h.1 hlt⟩

theorem stateAfter_status (sessionId : SessionKey) :
    (status codec fault sessionId).stateAfter t = t := by
  unfold stateAfter
  cases h : status codec fault sessionId t with
  | ok a s =>
    unfold status at h
    simp only [bind_ok_iff, lift_ok_iff, get_ok_iff] at h
    obtain ⟨_, _, ⟨-, rfl⟩, _, _, ⟨rfl, rfl⟩, -, rfl⟩ := h
    rfl
  | error e s =>
    unfold status at h
    simp only [bind_error_iff, lift_ok_iff, get_ok_iff, lift_error_iff] at h
    rcases h with ⟨-, rfl⟩ | ⟨_, _, ⟨-, rfl⟩, h | ⟨_, _, ⟨rfl, rfl⟩, -, rfl⟩⟩
    · rfl
    · cases h
    · rfl

theorem enqueue_ok {content : Content} {result : QueuedPromptsStatus Content}
    (h : enqueue codec fault sessionId content t = .ok result t') :
    ∃ json, codec.toJson content = .ok json ∧ t' = t.push sessionId json := by
  unfold enqueue at h
  simp only [bind_ok_iff, lift_ok_iff, get_ok_iff, set_ok_iff, insert_ok_iff] at h
  obtain ⟨json, _, ⟨hjson, rfl⟩, _, _, ⟨-, rfl⟩, _, _, ⟨rfl, rfl⟩, _, _, ⟨⟨-, rfl⟩, rfl⟩, _, _, rfl,
    _, _, ⟨-, rfl⟩, _, _, ⟨rfl, rfl⟩, -, rfl⟩ := h
  exact ⟨json, hjson, rfl⟩

theorem enqueue_error {content : Content}
    (h : enqueue codec fault sessionId content t = .error e t') :
    t' = t ∨ ∃ json, codec.toJson content = .ok json ∧ t' = t.push sessionId json := by
  unfold enqueue at h
  rcases bind_error_iff.mp h with h | ⟨json, _, hlift, h⟩
  · exact .inl (lift_error_iff.mp h).2.symm
  obtain ⟨hjson, rfl⟩ := lift_ok_iff.mp hlift
  rcases bind_error_iff.mp h with h | ⟨_, _, hlift, h⟩
  · exact .inl (lift_error_iff.mp h).2.symm
  obtain ⟨-, rfl⟩ := lift_ok_iff.mp hlift
  rcases bind_error_iff.mp h with h | ⟨_, _, hget, h⟩
  · cases h
  obtain ⟨rfl, rfl⟩ := get_ok_iff.mp hget
  rcases bind_error_iff.mp h with h | ⟨_, _, hlift, h⟩
  · exact .inl (lift_error_iff.mp h).2.symm
  obtain ⟨hinsert, rfl⟩ := lift_ok_iff.mp hlift
  obtain ⟨-, rfl⟩ := insert_ok_iff.mp hinsert
  right
  refine ⟨json, hjson, ?_⟩
  rcases bind_error_iff.mp h with h | ⟨_, _, hset, h⟩
  · cases h
  obtain rfl := set_ok_iff.mp hset
  simp only [bind_error_iff, lift_ok_iff, get_ok_iff, lift_error_iff] at h
  rcases h with ⟨-, rfl⟩ | ⟨_, _, ⟨-, rfl⟩, h | ⟨_, _, ⟨rfl, rfl⟩, -, rfl⟩⟩
  · rfl
  · cases h
  · rfl

theorem remove_ok {id : ℤ} {result : QueuedPromptsStatus Content}
    (h : remove codec fault id t = .ok result t') :
    t' = t.retain fun row => row.id ≠ id := by
  have h := transaction_ok h
  rw [bind_ok_iff] at h
  obtain ⟨_, _, hlift, h⟩ := h
  obtain ⟨-, rfl⟩ := lift_ok_iff.mp hlift
  rw [bind_ok_iff] at h
  obtain ⟨_, _, hget, h⟩ := h
  obtain ⟨rfl, rfl⟩ := get_ok_iff.mp hget
  cases hfind : t.rows.find? fun row => row.id = id with
  | none =>
    rw [hfind] at h
    cases h
  | some row =>
    rw [hfind] at h
    simp only [bind_ok_iff, lift_ok_iff, get_ok_iff, modify_ok_iff, pure_ok_iff] at h
    obtain ⟨_, _, ⟨-, rfl⟩, _, _, rfl, _, _, ⟨-, rfl⟩, _, _, ⟨rfl, rfl⟩, _, _, ⟨-, rfl⟩, _, _,
      ⟨-, rfl⟩, -, rfl⟩ := h
    rfl

theorem drain_ok {result : QueuedPromptsDrain Content}
    (h : drain codec fault sessionId t = .ok result t') :
    readPrompts codec t sessionId = .ok result.prompts ∧
      t' = t.retain fun row => row.sessionKey ≠ sessionId := by
  have h := transaction_ok h
  simp only [bind_ok_iff, lift_ok_iff, get_ok_iff, modify_ok_iff, pure_ok_iff] at h
  obtain ⟨_, _, ⟨-, rfl⟩, _, _, ⟨rfl, rfl⟩, prompts, _, ⟨hprompts, rfl⟩, _, _, ⟨-, rfl⟩, _, _, rfl,
    _, _, ⟨-, rfl⟩, _, _, ⟨rfl, rfl⟩, _, _, ⟨-, rfl⟩, _, _, ⟨-, rfl⟩, rfl, rfl⟩ := h
  exact ⟨hprompts, rfl⟩

theorem clear_ok {u : Unit} (h : clear fault sessionId t = .ok u t') :
    t' = t.retain fun row => row.sessionKey ≠ sessionId := by
  unfold clear at h
  simp only [bind_ok_iff, lift_ok_iff, modify_ok_iff] at h
  obtain ⟨_, _, ⟨-, rfl⟩, rfl⟩ := h
  rfl

theorem clear_error (h : clear fault sessionId t = .error e t') : t' = t := by
  unfold clear at h
  simp only [bind_error_iff, lift_ok_iff, lift_error_iff] at h
  rcases h with ⟨-, rfl⟩ | ⟨_, _, ⟨-, rfl⟩, h⟩
  · rfl
  · cases h

end QueuedPromptsStore

/-- What one command does to the table: nothing, or one more row, or a deletion, or a batch. -/
inductive Served (codec : PromptCodec Content) (t : QueueTable) :
    Command Content → Reply Content → QueueTable → Prop
  | unchanged {command : Command Content} {reply : Reply Content} :
      reply.batch = none →
      (∀ sessionId content, command = .enqueue sessionId content → ∃ e, reply = .status (.error e)) →
      Served codec t command reply t
  | inserted {sessionId : SessionKey} {content : Content} {json : String}
      {result : Except Error (QueuedPromptsStatus Content)} :
      codec.toJson content = .ok json →
      Served codec t (.enqueue sessionId content) (.status result) (t.push sessionId json)
  | removed {id : ℤ} {result : Except Error (QueuedPromptsStatus Content)} :
      Served codec t (.remove id) (.status result) (t.retain fun row => row.id ≠ id)
  | cleared {sessionId : SessionKey} {result : Except Error Unit} :
      Served codec t (.clear sessionId) (.clear result)
        (t.retain fun row => row.sessionKey ≠ sessionId)
  | drained {sessionId : SessionKey} {batch : QueuedPromptsDrain Content} :
      readPrompts codec t sessionId = .ok batch.prompts →
      Served codec t (.drain sessionId) (.drain (.ok batch))
        (t.retain fun row => row.sessionKey ≠ sessionId)

/-- **What the loop does with a command.** -/
theorem serve_cases (codec : PromptCodec Content) (fault : QueueFault) (t : QueueTable)
    (command : Command Content) :
    Served codec t command (command.serve codec fault t).1 (command.serve codec fault t).2 := by
  cases command with
  | enqueue sessionId content =>
    unfold Command.serve result stateAfter
    simp only
    cases h : QueuedPromptsStore.enqueue codec fault sessionId content t with
    | ok a t' =>
      obtain ⟨json, hjson, rfl⟩ := QueuedPromptsStore.enqueue_ok h
      exact .inserted hjson
    | error e t' =>
      rcases QueuedPromptsStore.enqueue_error h with rfl | ⟨json, hjson, rfl⟩
      · exact .unchanged rfl fun _ _ _ => ⟨e, rfl⟩
      · exact .inserted hjson
  | remove id =>
    unfold Command.serve result stateAfter
    simp only
    cases h : QueuedPromptsStore.remove codec fault id t with
    | ok a t' =>
      obtain rfl := QueuedPromptsStore.remove_ok h
      exact .removed
    | error e t' =>
      obtain rfl := transaction_error h
      exact .unchanged rfl fun _ _ h => (by cases h)
  | drain sessionId =>
    unfold Command.serve result stateAfter
    simp only
    cases h : QueuedPromptsStore.drain codec fault sessionId t with
    | ok a t' =>
      obtain ⟨hprompts, rfl⟩ := QueuedPromptsStore.drain_ok h
      exact .drained hprompts
    | error e t' =>
      obtain rfl := transaction_error h
      exact .unchanged rfl fun _ _ h => (by cases h)
  | clear sessionId =>
    unfold Command.serve result stateAfter
    simp only
    cases h : QueuedPromptsStore.clear fault sessionId t with
    | ok a t' =>
      obtain rfl := QueuedPromptsStore.clear_ok h
      exact .cleared
    | error e t' =>
      obtain rfl := QueuedPromptsStore.clear_error h
      exact .unchanged rfl fun _ _ h => (by cases h)
  | status sessionId =>
    have hsame : (Command.serve codec fault t (.status sessionId)).2 = t :=
      QueuedPromptsStore.stateAfter_status sessionId
    rw [hsame]
    exact .unchanged rfl fun _ _ h => (by cases h)

end Serve

/-! ## The invariant -/

variable {call c : ℕ}

section Invariant

variable {Content : Type} {codec : PromptCodec Content} {s t : QueueRun Content}

/-- A call whose command is with the loop. -/
def Pending (s : QueueRun Content) (call : ℕ) : Prop :=
  ∃ command phase, s.service.calls[call]? = some ⟨command, phase⟩ ∧
    (phase = .sent ∨ phase = .cancelled)

/-- How the channels are used. -/
structure Wired (s : QueueRun Content) : Prop where
  waiting : ∀ call ∈ s.service.channel, Pending s call ∧ s.sendingTo call = none
  alone : s.service.channel.length ≤ 1
  replying : ∀ call reply, s.service.replying = some (call, reply) → Pending s call

/-- Every inserted row is in one place; the batches are those of drain calls, in order, and the
deleted rows those of removals and clearings. -/
structure Accounts (codec : PromptCodec Content) (s : QueueRun Content) : Prop where
  ordered : s.inserted.Pairwise fun x y => x.2.id < y.2.id
  bounded : ∀ x ∈ s.inserted, x.2.id ≤ s.service.table.lastId
  sameId : ∀ x ∈ s.inserted, ∀ row ∈ s.service.table.rows, row.id = x.2.id → row = x.2
  deleted : ∀ x ∈ s.deleted, x.2.id ≤ s.service.table.lastId ∧
    (s.commandOf x.1 = some (.remove x.2.id) ∨ s.commandOf x.1 = some (.clear x.2.sessionKey))
  drains : ∀ call batch, s.batchOf call = some batch → ∃ sessionId,
    s.commandOf call = some (.drain sessionId) ∧
    (∀ prompt ∈ batch.prompts, prompt.sessionId = sessionId ∧
      prompt.id ≤ s.service.table.lastId) ∧
    batch.prompts.Pairwise fun prompt prompt' => prompt.id < prompt'.id
  acknowledged : ∀ call sessionId content status,
    s.commandOf call = some (.enqueue sessionId content) →
    s.replyOf call = some (.status (.ok status)) →
    ∃ row, (call, row) ∈ s.inserted ∧ row.sessionKey = sessionId ∧
      codec.toJson content = .ok row.content
  places : ∀ x ∈ s.inserted, InOnePlace codec s x.2

/-- A step that only moves replies keeps the places. -/
theorem Accounts.frame (h : Accounts codec s) (htable : t.service.table = s.service.table)
    (hinserted : t.inserted = s.inserted) (hdeleted : t.deleted = s.deleted)
    (hreply : ∀ call reply, t.replyOf call = some reply → s.replyOf call = some reply)
    (hholds : ∀ row call, Holds codec t row call ↔ Holds codec s row call)
    (hcommand : ∀ call command, s.commandOf call = some command →
      t.commandOf call = some command) : Accounts codec t where
  ordered := hinserted ▸ h.ordered
  bounded := by
    rw [hinserted, htable]
    exact h.bounded
  sameId := by
    rw [hinserted, htable]
    exact h.sameId
  deleted x hx := by
    rw [hdeleted] at hx
    rw [htable]
    obtain ⟨hle, hcall⟩ := h.deleted x hx
    exact ⟨hle, hcall.imp (hcommand _ _) (hcommand _ _)⟩
  drains call batch hcall := by
    obtain ⟨reply, hget, hbatch⟩ := bind_eq_some_iff.mp hcall
    obtain ⟨sessionId, hsession, hprompts, hordered⟩ := h.drains call batch
      (bind_eq_some_iff.mpr ⟨reply, hreply _ _ hget, hbatch⟩)
    rw [htable]
    exact ⟨sessionId, hcommand _ _ hsession, hprompts, hordered⟩
  acknowledged call sessionId content status hcall hstatus := by
    have hs := hreply _ _ hstatus
    obtain ⟨entry, hentry, -⟩ := bind_eq_some_iff.mp hs
    have hold : s.commandOf call = some entry.command := by
      unfold QueueRun.commandOf
      rw [hentry]
      rfl
    have hnew := hcommand _ _ hold
    rw [hcall] at hnew
    rw [← hnew] at hold
    rw [hinserted]
    exact h.acknowledged call sessionId content status hold hs
  places x hx := by
    rw [hinserted] at hx
    refine (h.places x hx).congr codec (by rw [htable]) ?_ (hholds x.2)
    unfold Deleted
    rw [hdeleted]

theorem get_setCall (service : QueueService Content) (call c : ℕ) (command : Command Content)
    (phase : CallPhase Content) : (service.setCall call command phase).calls[c]? =
      if call = c then some ⟨command, phase⟩ else service.calls[c]? :=
  OrderedMap.get_insert _ _ _ _

theorem commandOf_setCall {command : Command Content} {phase : CallPhase Content}
    (hcall : ∀ entry, s.service.calls[call]? = some entry → entry.command = command)
    (ht : t.service.calls = (s.service.setCall call command phase).calls) (c : ℕ)
    (command' : Command Content) (h : s.commandOf c = some command') :
    t.commandOf c = some command' := by
  unfold QueueRun.commandOf at h ⊢
  rw [ht, get_setCall]
  by_cases hc : call = c
  · subst hc
    rw [if_pos rfl]
    obtain ⟨entry, hentry, heq⟩ := map_eq_some_iff.mp h
    rw [← heq, hcall entry hentry]
    rfl
  · rw [if_neg hc]
    exact h

theorem replyOf_setCall {command : Command Content} {phase : CallPhase Content}
    (ht : t.service.calls = (s.service.setCall call command phase).calls)
    (hsending : ∀ c, c ≠ call → t.sendingTo c = s.sendingTo c)
    (hcall : phase.reply (t.sendingTo call) = s.replyOf call) (c : ℕ) :
    t.replyOf c = s.replyOf c := by
  unfold QueueRun.replyOf at hcall ⊢
  rw [ht, get_setCall]
  by_cases hc : call = c
  · subst hc
    rw [if_pos rfl]
    exact hcall
  · rw [if_neg hc, hsending c fun h => hc h.symm]

theorem Pending.of_ne (h : Pending s c) {command : Command Content} {phase : CallPhase Content}
    (hc : call ≠ c) (ht : t.service.calls = (s.service.setCall call command phase).calls) :
    Pending t c := by
  obtain ⟨command', phase', hget, hphase⟩ := h
  refine ⟨command', phase', ?_, hphase⟩
  rw [ht, get_setCall, if_neg hc]
  exact hget

theorem command_of_get {command : Command Content} {phase : CallPhase Content}
    (h : s.service.calls[call]? = some ⟨command, phase⟩) (entry : Call Content)
    (hentry : s.service.calls[call]? = some entry) : entry.command = command := by
  rw [h] at hentry
  cases hentry
  rfl

theorem sendingTo_congr (h : t.service.replying = s.service.replying) (call : ℕ) :
    t.sendingTo call = s.sendingTo call := by
  unfold QueueRun.sendingTo
  rw [h]

theorem sendingTo_eq {reply : Reply Content} (h : s.service.replying = some (call, reply)) (c : ℕ) :
    s.sendingTo c = if call = c then some reply else none := by
  unfold QueueRun.sendingTo
  rw [h, bind_some]

theorem sendingTo_none (h : s.service.replying = none) (c : ℕ) : s.sendingTo c = none := by
  unfold QueueRun.sendingTo
  rw [h, bind_none]

theorem replyOf_of_phase {command : Command Content} {phase : CallPhase Content}
    (h : s.service.calls[call]? = some ⟨command, phase⟩) :
    s.replyOf call = phase.reply (s.sendingTo call) := by
  unfold QueueRun.replyOf
  rw [h]
  rfl

theorem wired_step {e : QueueEvent Content} (h : Wired s) (hstep : QueueStep codec s e t) :
    Wired t := by
  cases hstep with
  | @start call command hnew =>
    have hne : ∀ c, Pending s c → call ≠ c := by
      rintro c ⟨command', phase', hget, -⟩ rfl
      rw [hnew] at hget
      cases hget
    exact ⟨fun c hc => ⟨(h.waiting c hc).1.of_ne (hne c (h.waiting c hc).1) rfl,
      (h.waiting c hc).2⟩, h.alone,
      fun c reply hc => (h.replying c reply hc).of_ne (hne c (h.replying c reply hc)) rfl⟩
  | @send call command hsending hroom =>
    have hne : ∀ c, Pending s c → call ≠ c := by
      rintro c ⟨command', phase', hget, hphase⟩ rfl
      rw [hsending] at hget
      cases hget
      rcases hphase with hphase | hphase <;> cases hphase
    have hempty : s.service.channel = [] := by
      unfold commandChannelCapacity at hroom
      exact length_eq_zero_iff.mp (by omega)
    refine ⟨fun c hc => ?_, ?_, fun c reply hc =>
      (h.replying c reply hc).of_ne (hne c (h.replying c reply hc)) rfl⟩
    · simp only [hempty, nil_append, mem_singleton] at hc
      subst hc
      refine ⟨⟨command, .sent, ?_, .inl rfl⟩, ?_⟩
      · exact (get_setCall _ _ _ _ _).trans (if_pos rfl)
      · refine (sendingTo_congr (s := s) rfl c).trans ?_
        cases hreplying : s.service.replying with
        | none => exact sendingTo_none hreplying c
        | some sending =>
          obtain ⟨other, reply⟩ := sending
          rw [sendingTo_eq hreplying]
          exact if_neg fun heq => hne other (h.replying other reply hreplying) heq.symm
    · simp [hempty]
  | @serve call rest command phase fault hidle hchannel hcall =>
    have hrest : rest = [] := by
      have halone := h.alone
      rw [hchannel, length_cons] at halone
      exact length_eq_zero_iff.mp (by omega)
    refine ⟨fun c hc => ?_, ?_, fun c reply hc => ?_⟩
    · have hmem : c ∈ rest := hc
      rw [hrest] at hmem
      exact absurd hmem not_mem_nil
    · change rest.length ≤ 1
      rw [hrest]
      exact Nat.zero_le _
    · have heq : (call, _) = (c, reply) := Option.some.inj hc
      obtain ⟨rfl, -⟩ := Prod.mk.inj heq
      exact (h.waiting call (hchannel ▸ mem_cons_self ..)).1
  | @reply call reply command phase hreplying hcall =>
    have hne : ∀ c ∈ s.service.channel, call ≠ c := by
      rintro c hc rfl
      have hnone := (h.waiting call hc).2
      rw [sendingTo_eq hreplying, if_pos rfl] at hnone
      cases hnone
    exact ⟨fun c hc => ⟨(h.waiting c hc).1.of_ne (hne c hc) rfl, rfl⟩, h.alone,
      fun c reply hc => (by cases hc)⟩
  | @receive call command reply hcall =>
    have hne : ∀ c, Pending s c → call ≠ c := by
      rintro c ⟨command', phase', hget, hphase⟩ rfl
      rw [hcall] at hget
      cases hget
      rcases hphase with hphase | hphase <;> cases hphase
    exact ⟨fun c hc => ⟨(h.waiting c hc).1.of_ne (hne c (h.waiting c hc).1) rfl,
      (h.waiting c hc).2⟩, h.alone,
      fun c reply hc => (h.replying c reply hc).of_ne (hne c (h.replying c reply hc)) rfl⟩
  | @cancel call command phase hcall hwaiting =>
    have hpending : ∀ c, Pending s c →
        Pending { s with service := s.service.setCall call command .cancelled } c := by
      intro c hc
      by_cases heq : call = c
      · subst heq
        exact ⟨command, .cancelled, (get_setCall _ _ _ _ _).trans (if_pos rfl), .inr rfl⟩
      · exact hc.of_ne heq rfl
    exact ⟨fun c hc => ⟨hpending c (h.waiting c hc).1, (h.waiting c hc).2⟩, h.alone,
      fun c reply hc => hpending c (h.replying c reply hc)⟩

theorem Accounts.setCall {command : Command Content} {phase : CallPhase Content}
    (h : Accounts codec s)
    (hcall : ∀ entry, s.service.calls[call]? = some entry → entry.command = command)
    (ht : t.service.calls = (s.service.setCall call command phase).calls)
    (htable : t.service.table = s.service.table) (hinserted : t.inserted = s.inserted)
    (hdeleted : t.deleted = s.deleted) (hsending : ∀ c, c ≠ call → t.sendingTo c = s.sendingTo c)
    (hreply : phase.reply (t.sendingTo call) = s.replyOf call) : Accounts codec t := by
  have hsame := replyOf_setCall ht hsending hreply
  refine h.frame htable hinserted hdeleted (fun c reply hc => (hsame c) ▸ hc) (fun row c => ?_)
    (commandOf_setCall hcall ht)
  unfold Holds QueueRun.batchOf
  rw [hsame]

theorem replyOf_served {rest : List ℕ} {command : Command Content} {fault : QueueFault}
    (hidle : s.service.replying = none) (hc : c ≠ call) :
    (s.served codec call rest command fault).replyOf c = s.replyOf c := by
  have hsending : (s.served codec call rest command fault).sendingTo c = none :=
    (sendingTo_eq rfl c).trans (if_neg fun h => hc h.symm)
  unfold QueueRun.replyOf
  rw [hsending, sendingTo_none hidle]
  rfl

end Invariant

/-! ## Serving a command -/

variable (table : QueueTable)

section Served

variable {Content : Type} {codec : PromptCodec Content} {s : QueueRun Content}

theorem decodes_of_readPrompts {table : QueueTable} {prompts : List (QueuedPrompt Content)}
    (h : readPrompts codec table sessionId = .ok prompts) :
    List.Forall₂ (Decodes codec) (table.rows.filter fun row => row.sessionKey = sessionId)
      prompts := by
  refine (forall₂_of_mapM_eq_ok h).imp fun row prompt hrow => ?_
  unfold QueuedPromptRow.tryInto at hrow
  cases hcontent : codec.fromJson row.content with
  | error e =>
    rw [hcontent] at hrow
    cases hrow
  | ok content =>
    rw [hcontent] at hrow
    obtain rfl := Except.ok.inj hrow
    exact ⟨rfl, rfl, hcontent⟩

/-- The loop has a reply for one call, which had none. -/
structure Replies (s t : QueueRun Content) (call : ℕ) (reply : Reply Content) : Prop where
  commands : ∀ c, t.commandOf c = s.commandOf c
  others : ∀ c, c ≠ call → t.replyOf c = s.replyOf c
  before : s.replyOf call = none
  after : ∀ reply', t.replyOf call = some reply' → reply' = reply

namespace Replies

variable {t : QueueRun Content} {call : ℕ} {reply : Reply Content}

theorem batchOf_of_ne (h : Replies s t call reply) (hc : c ≠ call) : t.batchOf c = s.batchOf c := by
  unfold QueueRun.batchOf
  rw [h.others c hc]

theorem holds_of_ne (h : Replies s t call reply) (hc : c ≠ call) (row : QueuedPromptRow) :
    Holds codec t row c ↔ Holds codec s row c := by
  unfold Holds
  rw [h.batchOf_of_ne hc]

theorem not_holds (h : Replies s t call reply) (row : QueuedPromptRow) :
    ¬Holds codec s row call := by
  rintro ⟨drain, hdrain, -⟩
  unfold QueueRun.batchOf at hdrain
  rw [h.before] at hdrain
  cases hdrain

/-- A reply without a batch gives no call a prompt. -/
theorem batchOf_of_none (h : Replies s t call reply) (hnone : reply.batch = none) (c : ℕ) :
    t.batchOf c = s.batchOf c := by
  by_cases hc : c = call
  · subst hc
    unfold QueueRun.batchOf
    rw [h.before]
    cases ht : t.replyOf c with
    | none => rfl
    | some reply' =>
      obtain rfl := h.after reply' ht
      exact hnone
  · exact h.batchOf_of_ne hc

theorem holds_of_none (codec : PromptCodec Content) (h : Replies s t call reply)
    (hnone : reply.batch = none) (row : QueuedPromptRow) (c : ℕ) :
    Holds codec t row c ↔ Holds codec s row c := by
  unfold Holds
  rw [h.batchOf_of_none hnone]

theorem drains (h : Replies s t call reply) (ha : Accounts codec s)
    (hlast : s.service.table.lastId ≤ t.service.table.lastId) {batch : QueuedPromptsDrain Content}
    (hbatch : s.batchOf c = some batch) :
    ∃ sessionId, t.commandOf c = some (.drain sessionId) ∧
      (∀ prompt ∈ batch.prompts, prompt.sessionId = sessionId ∧
        prompt.id ≤ t.service.table.lastId) ∧
      batch.prompts.Pairwise fun prompt prompt' => prompt.id < prompt'.id := by
  obtain ⟨sessionId, hcommand, hprompts, hordered⟩ := ha.drains c batch hbatch
  rw [h.commands]
  refine ⟨sessionId, hcommand, fun prompt hprompt => ?_, hordered⟩
  obtain ⟨hsession, hle⟩ := hprompts prompt hprompt
  exact ⟨hsession, hle.trans hlast⟩

theorem acknowledged (h : Replies s t call reply) (ha : Accounts codec s)
    (hinserted : ∀ x ∈ s.inserted, x ∈ t.inserted) (hc : c ≠ call) {content : Content}
    {status : QueuedPromptsStatus Content}
    (hcommand : t.commandOf c = some (.enqueue sessionId content))
    (hreply : t.replyOf c = some (.status (.ok status))) :
    ∃ row, (c, row) ∈ t.inserted ∧ row.sessionKey = sessionId ∧
      codec.toJson content = .ok row.content := by
  rw [h.commands] at hcommand
  rw [h.others c hc] at hreply
  obtain ⟨row, hrow, hsession⟩ := ha.acknowledged c sessionId content status hcommand hreply
  exact ⟨row, hinserted _ hrow, hsession⟩

end Replies

section Cases

variable {t : QueueRun Content} {call : ℕ} {reply : Reply Content}

theorem accounts_unchanged (h : Accounts codec s) (hr : Replies s t call reply)
    (hnone : reply.batch = none)
    (hack : ∀ sessionId content status, s.commandOf call = some (.enqueue sessionId content) →
      reply ≠ .status (.ok status))
    (htable : t.service.table = s.service.table) (hinserted : t.inserted = s.inserted)
    (hdeleted : t.deleted = s.deleted) : Accounts codec t where
  ordered := hinserted ▸ h.ordered
  bounded := by
    rw [hinserted, htable]
    exact h.bounded
  sameId := by
    rw [hinserted, htable]
    exact h.sameId
  deleted := by
    simp only [hdeleted, htable, hr.commands]
    exact h.deleted
  drains c batch hbatch := by
    rw [hr.batchOf_of_none hnone] at hbatch
    exact hr.drains h (htable ▸ le_refl _) hbatch
  acknowledged c sessionId content status hcommand hreply := by
    by_cases hc : c = call
    · subst hc
      rw [hr.commands] at hcommand
      exact absurd (hr.after _ hreply).symm (hack _ _ _ hcommand)
    · exact hr.acknowledged h (fun x hx => hinserted ▸ hx) hc hcommand hreply
  places x hx := by
    rw [hinserted] at hx
    refine (h.places x hx).congr codec (by rw [htable]) ?_ (hr.holds_of_none codec hnone x.2)
    unfold Deleted
    rw [hdeleted]

theorem accounts_inserted (h : Accounts codec s) {content : Content} {json : String}
    {result : Except Error (QueuedPromptsStatus Content)} (hr : Replies s t call (.status result))
    (hcommand : s.commandOf call = some (.enqueue sessionId content))
    (hjson : codec.toJson content = .ok json)
    (htable : t.service.table = s.service.table.push sessionId json)
    (hinserted : t.inserted = s.inserted ++ [(call, ⟨s.service.table.lastId + 1, sessionId, json⟩)])
    (hdeleted : t.deleted = s.deleted) : Accounts codec t := by
  have hlast : t.service.table.lastId = s.service.table.lastId + 1 := congrArg _ htable
  have hrows : t.service.table.rows =
      s.service.table.rows ++ [⟨s.service.table.lastId + 1, sessionId, json⟩] := by
    rw [htable]
    rfl
  have hle : s.service.table.lastId ≤ t.service.table.lastId := by omega
  have hholds := hr.holds_of_none codec rfl
  have hdel : ∀ row, Deleted t row ↔ Deleted s row := by
    intro row
    unfold Deleted
    rw [hdeleted]
  refine ⟨?_, ?_, ?_, ?_, ?_, ?_, ?_⟩
  · rw [hinserted, pairwise_append]
    refine ⟨h.ordered, pairwise_singleton _ _, fun x hx y hy => ?_⟩
    rw [mem_singleton.mp hy]
    exact Int.lt_add_one_of_le (h.bounded x hx)
  · intro x hx
    rw [hinserted] at hx
    rw [hlast]
    rcases mem_append.mp hx with hx | hx
    · have := h.bounded x hx
      omega
    · rw [mem_singleton.mp hx]
  · intro x hx row hrow hid
    rw [hinserted] at hx
    rw [hrows] at hrow
    rcases mem_append.mp hx with hx | hx
    · rcases mem_append.mp hrow with hrow | hrow
      · exact h.sameId x hx row hrow hid
      · rw [mem_singleton.mp hrow] at hid
        have := h.bounded x hx
        simp only at hid
        omega
    · rw [mem_singleton.mp hx] at hid ⊢
      rcases mem_append.mp hrow with hrow | hrow
      · have := s.service.table.bounded row hrow
        simp only at hid
        omega
      · exact mem_singleton.mp hrow
  · intro x hx
    rw [hdeleted] at hx
    obtain ⟨hbound, hcall⟩ := h.deleted x hx
    simp only [hr.commands]
    exact ⟨hbound.trans hle, hcall⟩
  · intro c batch hbatch
    rw [hr.batchOf_of_none rfl] at hbatch
    exact hr.drains h hle hbatch
  · intro c sessionId' content' status hc hreply
    by_cases heq : c = call
    · subst heq
      rw [hr.commands, hcommand] at hc
      cases hc
      refine ⟨⟨s.service.table.lastId + 1, sessionId, json⟩, ?_, rfl, hjson⟩
      rw [hinserted]
      exact mem_append_right _ (mem_singleton.mpr rfl)
    · refine hr.acknowledged h (fun x hx => ?_) heq hc hreply
      rw [hinserted]
      exact mem_append_left _ hx
  · intro x hx
    rw [hinserted] at hx
    rcases mem_append.mp hx with hx | hx
    · refine (h.places x hx).congr codec ?_ (hdel _) (hholds x.2)
      rw [hrows, mem_append, mem_singleton]
      refine or_iff_left fun heq => ?_
      have := h.bounded x hx
      rw [heq] at this
      simp only at this
      omega
    · rw [mem_singleton.mp hx]
      left
      refine ⟨?_, ?_, ?_⟩
      · rw [hrows]
        exact mem_append_right _ (mem_singleton.mpr rfl)
      · rw [hdel]
        rintro ⟨c, hc⟩
        have := (h.deleted _ hc).1
        simp only at this
        omega
      · intro c
        rw [hholds]
        rintro ⟨drain, hdrain, prompt, hprompt, hid, -⟩
        obtain ⟨_, -, hprompts, -⟩ := h.drains c drain hdrain
        have := (hprompts prompt hprompt).2
        simp only at hid
        omega

theorem accounts_deleted (h : Accounts codec s) (hr : Replies s t call reply)
    (hnone : reply.batch = none) {p : QueuedPromptRow → Bool}
    (hcommand : ∀ row, p row = false →
      s.commandOf call = some (.remove row.id) ∨ s.commandOf call = some (.clear row.sessionKey))
    (hack : ∀ sessionId content, s.commandOf call ≠ some (.enqueue sessionId content))
    (htable : t.service.table = s.service.table.retain p) (hinserted : t.inserted = s.inserted)
    (hdeleted : t.deleted = s.deleted ++
      (s.service.table.rows.filter fun row => !p row).map fun row => (call, row)) :
    Accounts codec t := by
  have hlast : t.service.table.lastId = s.service.table.lastId := by
    rw [htable]
    rfl
  have hrows : t.service.table.rows = s.service.table.rows.filter p := by
    rw [htable]
    rfl
  have hholds := hr.holds_of_none codec hnone
  have hdel : ∀ row, Deleted t row ↔
      Deleted s row ∨ row ∈ s.service.table.rows ∧ p row = false := by
    intro row
    unfold Deleted
    simp only [hdeleted, mem_append, List.mem_map, mem_filter, Bool.not_eq_true']
    constructor
    · rintro ⟨c, hc | ⟨row', hrow', heq⟩⟩
      · exact .inl ⟨c, hc⟩
      · obtain ⟨-, rfl⟩ := Prod.mk.inj heq
        exact .inr hrow'
    · rintro (⟨c, hc⟩ | hrow)
      · exact ⟨c, .inl hc⟩
      · exact ⟨call, .inr ⟨row, hrow, rfl⟩⟩
  refine ⟨hinserted ▸ h.ordered, ?_, ?_, ?_, ?_, ?_, ?_⟩
  · rw [hinserted, hlast]
    exact h.bounded
  · intro x hx row hrow hid
    rw [hinserted] at hx
    rw [hrows] at hrow
    exact h.sameId x hx row (mem_of_mem_filter hrow) hid
  · intro x hx
    simp only [hr.commands, hlast]
    rw [hdeleted] at hx
    rcases mem_append.mp hx with hx | hx
    · exact h.deleted x hx
    · obtain ⟨row, hrow, rfl⟩ := List.mem_map.mp hx
      obtain ⟨hmem, hp⟩ := mem_filter.mp hrow
      exact ⟨s.service.table.bounded row hmem, hcommand row (by simpa using hp)⟩
  · intro c batch hbatch
    rw [hr.batchOf_of_none hnone] at hbatch
    exact hr.drains h hlast.ge hbatch
  · intro c sessionId content status hc hreply
    by_cases heq : c = call
    · subst heq
      rw [hr.commands] at hc
      exact absurd hc (hack _ _)
    · exact hr.acknowledged h (fun x hx => hinserted ▸ hx) heq hc hreply
  · intro x hx
    rw [hinserted] at hx
    unfold InOnePlace
    simp only [hholds, hdel, hrows, mem_filter]
    rcases h.places x hx with ⟨hmem, hnot, hno⟩ | ⟨hmem, hyes, hno⟩ | ⟨hmem, hnot, hone⟩
    · cases hp : p x.2 with
      | true => exact .inl ⟨⟨hmem, rfl⟩, by simp [hnot], hno⟩
      | false => exact .inr (.inl ⟨by simp, .inr ⟨hmem, rfl⟩, hno⟩)
    · exact .inr (.inl ⟨fun h => hmem h.1, .inl hyes, hno⟩)
    · exact .inr (.inr ⟨fun h => hmem h.1, by simp [hnot, hmem], hone⟩)

/-- The rows that a drain command takes from the queue are in the batch of its call, which waits
for it; if no client waits there are none. -/
theorem accounts_drained (h : Accounts codec s) {batch : QueuedPromptsDrain Content}
    (hr : Replies s t call (.drain (.ok batch)))
    (hcommand : s.commandOf call = some (.drain sessionId))
    (hread : readPrompts codec s.service.table sessionId = .ok batch.prompts)
    (hwaits : t.replyOf call = some (.drain (.ok batch)) ∨
      ∀ row ∈ s.service.table.rows, row.sessionKey ≠ sessionId)
    (htable : t.service.table = s.service.table.retain fun row => row.sessionKey ≠ sessionId)
    (hinserted : t.inserted = s.inserted) (hdeleted : t.deleted = s.deleted) :
    Accounts codec t := by
  have hlast : t.service.table.lastId = s.service.table.lastId := by
    rw [htable]
    rfl
  have hrows : ∀ row, row ∈ t.service.table.rows ↔
      row ∈ s.service.table.rows ∧ row.sessionKey ≠ sessionId := by
    intro row
    rw [htable]
    exact mem_filter.trans (and_congr_right' decide_eq_true_iff)
  have hdel : ∀ row, Deleted t row ↔ Deleted s row := by
    intro row
    unfold Deleted
    rw [hdeleted]
  have hdecodes := decodes_of_readPrompts hread
  have hprompt : ∀ prompt ∈ batch.prompts, ∃ row ∈ s.service.table.rows,
      row.sessionKey = sessionId ∧ Decodes codec row prompt := by
    intro prompt hprompt
    obtain ⟨row, hrow, hdec⟩ := exists_left_of_forall₂ hdecodes hprompt
    obtain ⟨hmem, hsession⟩ := mem_filter.mp hrow
    exact ⟨row, hmem, of_decide_eq_true hsession, hdec⟩
  have hbatch : ∀ c batch', t.batchOf c = some batch' →
      c ≠ call ∧ s.batchOf c = some batch' ∨ c = call ∧ batch' = batch := by
    intro c batch' hc
    by_cases heq : c = call
    · right
      subst heq
      obtain ⟨reply', hreply', hget⟩ := bind_eq_some_iff.mp hc
      obtain rfl := hr.after reply' hreply'
      exact ⟨rfl, (Option.some.inj hget).symm⟩
    · left
      exact ⟨heq, hr.batchOf_of_ne heq ▸ hc⟩
  -- A prompt of the batch was in the queue.
  have hfrom : ∀ x ∈ s.inserted, Holds codec t x.2 call →
      x.2 ∈ s.service.table.rows ∧ x.2.sessionKey = sessionId := by
    rintro x hx ⟨batch', hc, prompt, hmem, hid, -⟩
    obtain ⟨hne, -⟩ | ⟨-, rfl⟩ := hbatch call batch' hc
    · exact absurd rfl hne
    · obtain ⟨row, hrow, hsession, hrowId, -⟩ := hprompt prompt hmem
      obtain rfl := h.sameId x hx row hrow (hrowId.symm.trans hid)
      exact ⟨hrow, hsession⟩
  refine ⟨hinserted ▸ h.ordered, ?_, ?_, ?_, ?_, ?_, ?_⟩
  · rw [hinserted, hlast]
    exact h.bounded
  · intro x hx row hrow hid
    rw [hinserted] at hx
    exact h.sameId x hx row ((hrows row).mp hrow).1 hid
  · simp only [hdeleted, hr.commands, hlast]
    exact h.deleted
  · intro c batch' hc
    rcases hbatch c batch' hc with ⟨-, hold⟩ | ⟨rfl, rfl⟩
    · exact hr.drains h hlast.ge hold
    · rw [hr.commands, hlast]
      refine ⟨sessionId, hcommand, fun prompt hmem => ?_, ?_⟩
      · obtain ⟨row, hrow, hsession, hid, hkey, -⟩ := hprompt prompt hmem
        exact ⟨hkey.trans hsession, hid ▸ s.service.table.bounded row hrow⟩
      · refine pairwise_of_forall₂ (fun row row' prompt prompt' hdec hdec' hlt => ?_) hdecodes
          (s.service.table.ordered.filter _)
        rw [hdec.1, hdec'.1]
        exact hlt
  · intro c sessionId' content status hc hreply
    by_cases heq : c = call
    · subst heq
      rw [hr.commands, hcommand] at hc
      cases hc
    · exact hr.acknowledged h (fun x hx => hinserted ▸ hx) heq hc hreply
  · intro x hx
    rw [hinserted] at hx
    unfold InOnePlace
    rw [hdel]
    rcases h.places x hx with ⟨hmem, hnot, hno⟩ | ⟨hmem, hyes, hno⟩ | ⟨hmem, hnot, hone⟩
    · by_cases hsession : x.2.sessionKey = sessionId
      · -- The row goes to the call.
        right; right
        refine ⟨fun hrow => ((hrows x.2).mp hrow).2 hsession, hnot, call, ?_, fun c hc => ?_⟩
        · rcases hwaits with hwaits | hnone
          · obtain ⟨prompt, hprompt, hdec⟩ := exists_right_of_forall₂ hdecodes
              (mem_filter.mpr ⟨hmem, decide_eq_true hsession⟩)
            refine ⟨batch, ?_, prompt, hprompt, hdec⟩
            unfold QueueRun.batchOf
            rw [hwaits]
            rfl
          · exact absurd hsession (hnone x.2 hmem)
        · by_contra hne
          exact hno c ((hr.holds_of_ne hne x.2).mp hc)
      · left
        refine ⟨(hrows x.2).mpr ⟨hmem, hsession⟩, hnot, fun c hc => ?_⟩
        by_cases heq : c = call
        · subst heq
          exact hsession (hfrom x hx hc).2
        · exact hno c ((hr.holds_of_ne heq x.2).mp hc)
    · right; left
      refine ⟨fun hrow => hmem ((hrows x.2).mp hrow).1, hyes, fun c hc => ?_⟩
      by_cases heq : c = call
      · subst heq
        exact hmem (hfrom x hx hc).1
      · exact hno c ((hr.holds_of_ne heq x.2).mp hc)
    · right; right
      refine ⟨fun hrow => hmem ((hrows x.2).mp hrow).1, hnot, ?_⟩
      have hiff : ∀ c, Holds codec t x.2 c ↔ Holds codec s x.2 c := by
        intro c
        by_cases heq : c = call
        · subst heq
          exact iff_of_false (fun hc => hmem (hfrom x hx hc).1) (hr.not_holds x.2)
        · exact hr.holds_of_ne heq x.2
      simp only [hiff]
      exact hone

end Cases

theorem filter_not_mem_push (sessionKey content : String) :
    (table.push sessionKey content).rows.filter (fun row => row ∉ table.rows) =
      [⟨table.lastId + 1, sessionKey, content⟩] := by
  have hnew : (⟨table.lastId + 1, sessionKey, content⟩ : QueuedPromptRow) ∉ table.rows := by
    intro hmem
    have hle := table.bounded _ hmem
    simp only at hle
    omega
  unfold QueueTable.push
  rw [filter_append, filter_eq_nil_iff.mpr (fun row hrow => by simp [hrow]),
    nil_append]
  exact filter_cons_of_pos (by simpa using hnew)

theorem filter_not_mem_retain (p : QueuedPromptRow → Bool) :
    (table.retain p).rows.filter (fun row => row ∉ table.rows) = [] := by
  refine filter_eq_nil_iff.mpr fun row hrow => ?_
  have hmem := mem_of_mem_filter hrow
  simp [hmem]

theorem filter_not_mem_of_retain (p : QueuedPromptRow → Bool) :
    table.rows.filter (fun row => row ∉ (table.retain p).rows) =
      table.rows.filter fun row => !p row := by
  refine filter_congr fun row hrow => ?_
  unfold QueueTable.retain
  simp [hrow]

theorem accounts_served {rest : List ℕ} {command : Command Content} {phase : CallPhase Content}
    {fault : QueueFault} (h : Accounts codec s) (hwired : Wired s)
    (hidle : s.service.replying = none) (hchannel : s.service.channel = call :: rest)
    (hcall : s.service.calls[call]? = some ⟨command, phase⟩)
    (hkeeps : KeepsBatches s (.serve fault)) :
    Accounts codec (s.served codec call rest command fault) := by
  have hphase : phase = .sent ∨ phase = .cancelled := by
    obtain ⟨⟨command', phase', hget, hphase⟩, -⟩ :=
      hwired.waiting call (hchannel ▸ mem_cons_self ..)
    rw [hcall] at hget
    cases hget
    exact hphase
  have hbefore : s.replyOf call = none := by
    rw [replyOf_of_phase hcall, sendingTo_none hidle]
    rcases hphase with rfl | rfl <;> rfl
  have hcommand : s.commandOf call = some command := by
    unfold QueueRun.commandOf
    rw [hcall]
    rfl
  have hafter : (s.served codec call rest command fault).replyOf call =
      if phase.waiting then some (command.serve codec fault s.service.table).1 else none := by
    rw [replyOf_of_phase (s := s.served codec call rest command fault) hcall,
      sendingTo_eq (s := s.served codec call rest command fault) rfl, if_pos rfl]
    rcases hphase with rfl | rfl <;> rfl
  have hr : Replies s (s.served codec call rest command fault) call
      (command.serve codec fault s.service.table).1 := by
    refine ⟨fun _ => rfl, fun c hc => replyOf_served hidle hc, hbefore, fun reply' hreply' => ?_⟩
    rw [hafter] at hreply'
    split at hreply'
    · exact (Option.some.inj hreply').symm
    · cases hreply'
  have hserve := serve_cases codec fault s.service.table command
  have hinserted : (s.served codec call rest command fault).inserted = s.inserted ++
      ((command.serve codec fault s.service.table).2.rows.filter
        fun row => row ∉ s.service.table.rows).map fun row => (call, row) := rfl
  have hdeleted : (s.served codec call rest command fault).deleted = s.deleted ++
      if command.deletes then
        (s.service.table.rows.filter fun row =>
          row ∉ (command.serve codec fault s.service.table).2.rows).map fun row => (call, row)
      else [] := rfl
  have htable : (s.served codec call rest command fault).service.table =
      (command.serve codec fault s.service.table).2 := rfl
  generalize s.served codec call rest command fault = t at *
  generalize (command.serve codec fault s.service.table).1 = reply at *
  generalize (command.serve codec fault s.service.table).2 = table at *
  cases hserve with
  | unchanged hnone hack =>
    refine accounts_unchanged h hr hnone (fun sessionId content status hc => ?_) htable ?_ ?_
    · rw [hcommand] at hc
      obtain ⟨e, rfl⟩ := hack sessionId content (Option.some.inj hc)
      rintro ⟨⟩
    · rw [hinserted, filter_eq_nil_iff.mpr (fun row hrow => by simp [hrow])]
      exact append_nil _
    · rw [hdeleted, filter_eq_nil_iff.mpr (fun row hrow => by simp [hrow])]
      cases command <;> exact append_nil _
  | @inserted sessionId content json result hjson =>
    refine accounts_inserted h hr hcommand hjson htable ?_ (hdeleted.trans (append_nil _))
    rw [hinserted, filter_not_mem_push]
    rfl
  | @removed id result =>
    refine accounts_deleted h hr rfl (fun row hrow => .inl ?_) ?_ htable ?_ ?_
    · rw [hcommand, of_decide_eq_false hrow |> not_not.mp]
    · intro sessionId content hc
      rw [hcommand] at hc
      cases hc
    · rw [hinserted, filter_not_mem_retain]
      exact append_nil _
    · rw [hdeleted, ← filter_not_mem_of_retain]
      rfl
  | @cleared sessionId result =>
    refine accounts_deleted h hr rfl (fun row hrow => .inr ?_) ?_ htable ?_ ?_
    · rw [hcommand, of_decide_eq_false hrow |> not_not.mp]
    · intro sessionId content hc
      rw [hcommand] at hc
      cases hc
    · rw [hinserted, filter_not_mem_retain]
      exact append_nil _
    · rw [hdeleted, ← filter_not_mem_of_retain]
      rfl
  | @drained sessionId batch hread =>
    refine accounts_drained h hr hcommand hread ?_ htable ?_ (hdeleted.trans (append_nil _))
    · rcases hphase with rfl | rfl
      · exact .inl hafter
      · exact .inr (hkeeps call sessionId (by rw [hchannel]; rfl) hcall)
    · rw [hinserted, filter_not_mem_retain]
      exact append_nil _

/-- **One step keeps the places**, if it loses no batch. -/
theorem accounts_step {t : QueueRun Content} {e : QueueEvent Content} (h : Accounts codec s)
    (hwired : Wired s) (hstep : QueueStep codec s e t) (hkeeps : KeepsBatches s e) :
    Accounts codec t := by
  cases hstep with
  | @start call command hnew =>
    refine h.setCall (fun entry hget => (by rw [hnew] at hget; cases hget)) rfl rfl rfl rfl (fun _ _ => rfl) ?_
    unfold QueueRun.replyOf
    rw [hnew]
    rfl
  | @send call command hsending hroom =>
    refine h.setCall (command_of_get hsending) rfl rfl rfl rfl (fun _ _ => rfl) ?_
    rw [replyOf_of_phase hsending]
    refine (sendingTo_congr (s := s) rfl call).trans ?_
    cases hreplying : s.service.replying with
    | none => exact sendingTo_none hreplying call
    | some sending =>
      obtain ⟨other, reply⟩ := sending
      rw [sendingTo_eq hreplying]
      refine if_neg ?_
      rintro rfl
      obtain ⟨command', phase', hget, hphase⟩ := hwired.replying other reply hreplying
      rw [hsending] at hget
      cases hget
      rcases hphase with hphase | hphase <;> cases hphase
  | serve hidle hchannel hcall => exact accounts_served h hwired hidle hchannel hcall hkeeps
  | @reply call reply command phase hreplying hcall =>
    refine h.setCall (command_of_get hcall) rfl rfl rfl rfl (fun c hc => ?_) ?_
    · rw [sendingTo_eq hreplying, if_neg fun heq => hc heq.symm]
      exact sendingTo_none rfl c
    · rw [replyOf_of_phase hcall, sendingTo_eq hreplying, if_pos rfl]
      obtain ⟨command', phase', hget, hphase⟩ := hwired.replying call reply hreplying
      rw [hcall] at hget
      cases hget
      rcases hphase with rfl | rfl <;> rfl
  | @receive call command reply hcall =>
    refine h.setCall (command_of_get hcall) rfl rfl rfl rfl (fun _ _ => rfl) ?_
    rw [replyOf_of_phase hcall]
    rfl
  | @cancel call command phase hcall hwaiting =>
    -- The call has no reply any more, and had no prompts.
    have hother : ∀ c, c ≠ call → QueueRun.replyOf
        { s with service := s.service.setCall call command .cancelled } c = s.replyOf c := by
      intro c hc
      unfold QueueRun.replyOf
      rw [get_setCall, if_neg fun heq => hc heq.symm]
      rfl
    have hnone : QueueRun.replyOf
        { s with service := s.service.setCall call command .cancelled } call = none := by
      unfold QueueRun.replyOf
      rw [get_setCall, if_pos rfl]
      rfl
    refine h.frame rfl rfl rfl (fun c reply hc => ?_) (fun row c => ?_)
      (commandOf_setCall (command_of_get hcall) rfl)
    · by_cases heq : c = call
      · subst heq
        rw [hnone] at hc
        cases hc
      · exact (hother c heq) ▸ hc
    · unfold Holds QueueRun.batchOf
      by_cases heq : c = call
      · subst heq
        rw [hnone]
        constructor
        · rintro ⟨drain, hdrain, -⟩
          cases hdrain
        · rintro ⟨drain, hdrain, prompt, hprompt, -⟩
          rw [hkeeps drain hdrain] at hprompt
          exact absurd hprompt not_mem_nil
      · rw [hother c heq]

end Served

/-! ## The whole run -/

section Runs

variable {Content : Type} {codec : PromptCodec Content}

theorem wired_start : Wired (.start table : QueueRun Content) :=
  ⟨fun _ h => absurd h not_mem_nil, Nat.zero_le _, fun _ _ h => (by cases h)⟩

theorem accounts_start : Accounts codec (QueueRun.start table) where
  ordered := List.Pairwise.nil
  bounded _ h := absurd h not_mem_nil
  sameId _ h := absurd h not_mem_nil
  deleted _ h := absurd h not_mem_nil
  drains _ _ h := by cases h
  acknowledged _ _ _ _ h := by cases h
  places _ h := absurd h not_mem_nil

def Settled (s : QueueRun Content) : Prop :=
  s.service.replying = none ∧
    ∀ (call : ℕ) (command : Command Content) (reply : Reply Content),
      s.service.calls[call]? ≠ some ⟨command, .replied reply⟩

/-- A client has the batch of its drain call. -/
def Received (s : QueueRun Content) (call : ℕ) (batch : QueuedPromptsDrain Content) : Prop :=
  ∃ command, s.service.calls[call]? = some ⟨command, .returned (.drain (.ok batch))⟩

theorem eq_of_batch {reply : Reply Content} {batch : QueuedPromptsDrain Content}
    (h : reply.batch = some batch) : reply = .drain (.ok batch) := by
  cases reply with
  | status result | clear result => cases h
  | drain result =>
    cases result with
    | error e => cases h
    | ok batch' => rw [Option.some.inj h]

theorem received_of_settled {s : QueueRun Content} (h : Settled s)
    {batch : QueuedPromptsDrain Content} (hbatch : s.batchOf call = some batch) :
    Received s call batch := by
  obtain ⟨reply, hreply, hget⟩ := bind_eq_some_iff.mp hbatch
  obtain ⟨⟨command, phase⟩, hcall, hphase⟩ := bind_eq_some_iff.mp hreply
  obtain rfl := eq_of_batch hget
  cases phase with
  | sending | cancelled => cases hphase
  | sent =>
    have hsending := (sendingTo_none h.1 call).symm.trans hphase
    cases hsending
  | replied reply => exact absurd hcall (h.2 call command reply)
  | returned reply =>
    cases hphase
    exact ⟨command, hcall⟩

/-- **The places of the acknowledged prompts**: over every run that loses no batch, whatever the
clients call and drop and whichever statements fail.  Prompts are inserted and stay in the order
of their ids. -/
theorem prompts_accounted {table : QueueTable} {es : List (QueueEvent Content)}
    {s : QueueRun Content}
    (hrun : Run (fun s e t => QueueStep codec s e t ∧ KeepsBatches s e) (.start table) es s) :
    (∀ call sessionId content status,
      s.service.calls[call]? =
        some ⟨.enqueue sessionId content, .returned (.status (.ok status))⟩ →
      ∃ row, (call, row) ∈ s.inserted ∧ row.sessionKey = sessionId ∧
        codec.toJson content = .ok row.content ∧ InOnePlace codec s row) ∧
    (s.inserted.Pairwise fun x y => x.2.id < y.2.id) ∧
    (s.service.table.rows.Pairwise fun row row' => row.id < row'.id) ∧
    (∀ x ∈ s.deleted, s.commandOf x.1 = some (.remove x.2.id) ∨
      s.commandOf x.1 = some (.clear x.2.sessionKey)) ∧
    ∀ call batch, s.batchOf call = some batch →
      (∃ sessionId, s.commandOf call = some (.drain sessionId) ∧
        ∀ prompt ∈ batch.prompts, prompt.sessionId = sessionId) ∧
      (batch.prompts.Pairwise fun prompt prompt' => prompt.id < prompt'.id) ∧
      (Settled s → Received s call batch) := by
  obtain ⟨-, h⟩ : Wired s ∧ Accounts codec s := by
    refine Run.invariant (P := fun s => Wired s ∧ Accounts codec s) (fun s e t hs hstep => ?_)
      hrun ⟨wired_start table, accounts_start table⟩
    exact ⟨wired_step hs.1 hstep.1, accounts_step hs.2 hs.1 hstep.1 hstep.2⟩
  refine ⟨fun call sessionId content status hcall => ?_, h.ordered, s.service.table.ordered,
    fun x hx => (h.deleted x hx).2, fun call batch hbatch => ?_⟩
  · have hcommand : s.commandOf call = some (.enqueue sessionId content) := by
      unfold QueueRun.commandOf
      rw [hcall]
      rfl
    obtain ⟨row, hrow, hsession, hjson⟩ := h.acknowledged call sessionId content status hcommand
      (replyOf_of_phase hcall)
    exact ⟨row, hrow, hsession, hjson, h.places _ hrow⟩
  · obtain ⟨sessionId, hcommand, hprompts, hordered⟩ := h.drains call batch hbatch
    exact ⟨⟨sessionId, hcommand, fun prompt hprompt => (hprompts prompt hprompt).1⟩, hordered,
      fun hsettled => received_of_settled hsettled hbatch⟩

/-- The contents as their JSON texts. -/
def jsonContent : PromptCodec String where
  toJson := .ok
  fromJson := .ok

def prompt : String :=
  "\x7b\"content\":\"hi\",\"inputMedium\":\"text\",\"replyMedium\":\"text\"\x7d"

/-- One client enqueues a prompt, another one drains it. -/
def enqueueThenDrain : List (QueueEvent String) :=
  [.start 0 (.enqueue "main" prompt), .send 0, .serve none, .reply, .receive 0,
    .start 1 (.drain "main"), .send 1, .serve none, .reply, .receive 1]

theorem prompts_accounted_enqueueThenDrain : ∃ s,
    Run (fun s e t => QueueStep jsonContent s e t ∧ KeepsBatches s e) (.start .empty)
      enqueueThenDrain s ∧
    (∃ row, (0, row) ∈ s.inserted ∧ row.sessionKey = "main" ∧
      jsonContent.toJson prompt = .ok row.content ∧ InOnePlace jsonContent s row) ∧
    Received s 1 { prompts := [⟨1, "main", prompt⟩], status := ⟨"main", []⟩ } := by
  have hrun : ∃ s, Run (fun s e t => QueueStep jsonContent s e t ∧ KeepsBatches s e)
      (.start .empty) enqueueThenDrain s ∧
      s.service.calls[0]? = some ⟨.enqueue "main" prompt,
        .returned (.status (.ok ⟨"main", [⟨1, "main", prompt⟩]⟩))⟩ ∧
      Received s 1 { prompts := [⟨1, "main", prompt⟩], status := ⟨"main", []⟩ } := by
    refine ⟨_, .cons ⟨.start rfl, trivial⟩ <| .cons ⟨.send rfl Nat.zero_lt_one, trivial⟩ <|
      .cons ⟨.serve rfl rfl rfl, ?_⟩ <| .cons ⟨.reply rfl rfl, trivial⟩ <|
      .cons ⟨.receive rfl, trivial⟩ <| .cons ⟨.start rfl, trivial⟩ <|
      .cons ⟨.send rfl Nat.zero_lt_one, trivial⟩ <| .cons ⟨.serve rfl rfl rfl, ?_⟩ <|
      .cons ⟨.reply rfl rfl, trivial⟩ <| .cons ⟨.receive rfl, trivial⟩ <| .nil _, rfl, ⟨_, rfl⟩⟩
    · rintro _ _ ⟨⟩ ⟨⟩
    · rintro _ _ ⟨⟩ ⟨⟩
  obtain ⟨s, hrun, hcall, hreceived⟩ := hrun
  exact ⟨s, hrun, (prompts_accounted hrun).1 0 _ _ _ hcall, hreceived⟩

/-- The second client is dropped before its command is served. -/
def drainThenDrop : List (QueueEvent String) :=
  [.start 0 (.enqueue "main" prompt), .send 0, .serve none, .reply, .receive 0,
    .start 1 (.drain "main"), .send 1, .cancel 1, .serve none, .reply]

theorem prompt_lost_drainThenDrop : ∃ s,
    Run (QueueStep jsonContent) (.start .empty) drainThenDrop s ∧
    s.service.calls[0]? = some ⟨.enqueue "main" prompt,
      .returned (.status (.ok ⟨"main", [⟨1, "main", prompt⟩]⟩))⟩ ∧
    s.inserted = [(0, ⟨1, "main", prompt⟩)] ∧
    ¬InOnePlace jsonContent s ⟨1, "main", prompt⟩ := by
  refine ⟨_, .cons (.start rfl) <| .cons (.send rfl Nat.zero_lt_one) <|
    .cons (.serve rfl rfl rfl) <| .cons (.reply rfl rfl) <| .cons (.receive rfl) <|
    .cons (.start rfl) <| .cons (.send rfl Nat.zero_lt_one) <| .cons (.cancel rfl rfl) <|
    .cons (.serve rfl rfl rfl) <| .cons (.reply rfl rfl) <| .nil _, rfl, rfl, ?_⟩
  rintro (⟨hrow, -⟩ | ⟨-, ⟨call, hdeleted⟩, -⟩ | ⟨-, -, call, ⟨drain, hbatch, -⟩, -⟩)
  · exact absurd hrow (by decide)
  · exact absurd hdeleted List.not_mem_nil
  · match call with
    | 0 => cases hbatch
    | 1 => cases hbatch
    | call + 2 => cases hbatch

end Runs

end Chelix.Sessions
