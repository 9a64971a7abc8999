import Chelix.Library.OrderedMap
import Chelix.Library.Run
import Chelix.Library.Text

/-!
# Waiting for tool permissions

A gated tool call registers a slot under the text of its session, its call and its phase, and
waits for the decision of an operator on the channel that the slot holds.  A decision takes the
slot out of the map and is sent; dropping a slot closes its channel.  A waiter that wakes up takes
the slot of its key out of the map once more.
-/

namespace Chelix.Chat

open Chelix.Library

/-! ## Requests -/

inductive ToolPermissionPhase where
  | beforeExecution
  | afterResult
  deriving DecidableEq

/-- The `Debug` text of a phase. -/
def ToolPermissionPhase.debug : ToolPermissionPhase → String
  | .beforeExecution => "BeforeExecution"
  | .afterResult => "AfterResult"

inductive ToolPermissionDecision where
  | approve
  | skip
  | deny (feedback : String)
  deriving DecidableEq

structure PendingToolPermission where
  sessionKey : String
  runId : String
  toolCallId : String
  toolName : String
  phase : ToolPermissionPhase
  deriving DecidableEq

def requestKey (sessionKey toolCallId : String) (phase : ToolPermissionPhase) : String :=
  sessionKey ++ ":" ++ toolCallId ++ ":" ++ phase.debug

def PendingToolPermission.key (view : PendingToolPermission) : String :=
  requestKey view.sessionKey view.toolCallId view.phase

/-- The arguments of a call of `resolve`. -/
structure ResolveCall where
  sessionKey : String
  toolCallId : String
  phase : ToolPermissionPhase
  decision : ToolPermissionDecision
  deriving DecidableEq

def ResolveCall.key (call : ResolveCall) : String :=
  requestKey call.sessionKey call.toolCallId call.phase

/-- A request of the session, the call and the phase that a decision is given for. -/
def PendingToolPermission.IsFor (view : PendingToolPermission) (call : ResolveCall) : Prop :=
  view.sessionKey = call.sessionKey ∧ view.toolCallId = call.toolCallId ∧ view.phase = call.phase

instance (view : PendingToolPermission) (call : ResolveCall) : Decidable (view.IsFor call) :=
  inferInstanceAs (Decidable (_ ∧ _ ∧ _))

inductive ToolPermissionMode where
  | auto
  | moderated
  deriving DecidableEq

inductive ToolPermissionType where
  | manual
  deriving DecidableEq

/-! ## The manager -/

/-- A slot, with the call of `gate_permission` whose channel it holds. -/
structure PendingSlot where
  view : PendingToolPermission
  tx : ℕ
  deriving DecidableEq

/-- How a call of `gate_permission` ends.  A decision is kept with the call of `resolve` that it
was passed to. -/
inductive GateOutcome where
  | approved
  | decided (resolver : ℕ) (call : ResolveCall)
  | cancelled
  | failed (error : String)
  deriving DecidableEq

/-- Where a call of `gate_permission` stands. -/
inductive GatePhase where
  | idle
  | registering (view : PendingToolPermission)
  | waiting (view : PendingToolPermission)
  /-- The decision is in the channel. -/
  | decided (view : PendingToolPermission) (resolver : ℕ) (call : ResolveCall)
  /-- The sender is dropped. -/
  | closed (view : PendingToolPermission)
  /-- Woken up; the map is awaited. -/
  | removing (view : PendingToolPermission) (outcome : GateOutcome)
  /-- The run is cancelled; the map is awaited for the whole session. -/
  | sweeping (view : PendingToolPermission)
  | finished (view : Option PendingToolPermission) (outcome : GateOutcome)
  deriving DecidableEq

namespace GatePhase

/-- The request of a call that is going to remove its key. -/
def live : GatePhase → Option PendingToolPermission
  | .waiting view => some view
  | .decided view _ _ => some view
  | .closed view => some view
  | .removing view _ => some view
  | _ => none

/-- The decision that a call has received, with its request. -/
def received : GatePhase → Option (Option PendingToolPermission × ℕ × ResolveCall)
  | .decided view resolver call => some (some view, resolver, call)
  | .removing view (.decided resolver call) => some (some view, resolver, call)
  | .finished view (.decided resolver call) => some (view, resolver, call)
  | _ => none

end GatePhase

/-- Where a call of `resolve` stands. -/
inductive ResolverPhase where
  | idle
  /-- The slot is taken out of the map, and the decision not yet sent. -/
  | holding (slot : PendingSlot) (call : ResolveCall)
  | returned (result : Except String PendingToolPermission)
  deriving DecidableEq

structure ToolPermissionManager where
  pending : OrderedMap String PendingSlot
  gates : ℕ → GatePhase
  resolvers : ℕ → ResolverPhase

namespace ToolPermissionManager

def new : ToolPermissionManager where
  pending := ∅
  gates _ := .idle
  resolvers _ := .idle

variable (m : ToolPermissionManager)

def setGate (n : ℕ) (phase : GatePhase) : ToolPermissionManager :=
  { m with gates := Function.update m.gates n phase }

def setResolver (r : ℕ) (phase : ResolverPhase) : ToolPermissionManager :=
  { m with resolvers := Function.update m.resolvers r phase }

/-- The order of the requests that clients are shown. -/
def viewLe (left right : PendingToolPermission) : Bool :=
  left.toolCallId < right.toolCallId ||
    (left.toolCallId = right.toolCallId && left.phase.debug ≤ right.phase.debug)

def pendingForSession (sessionKey : String) : List PendingToolPermission :=
  (((m.pending.toList.map Prod.snd).filter fun slot =>
    slot.view.sessionKey = sessionKey).map PendingSlot.view).mergeSort viewLe

/-- Drops slots.  A call that waits on the channel of one finds it closed. -/
def dropWhere (p : String → PendingSlot → Bool) : ToolPermissionManager :=
  { m with
    pending := m.pending.filter fun key slot => !p key slot
    gates := fun n =>
      match m.gates n with
      | .waiting view =>
        if m.pending[view.key]?.any fun slot => slot.tx = n && p view.key slot then .closed view
        else .waiting view
      | phase => phase }

def dropKey (key : String) : ToolPermissionManager := m.dropWhere fun other _ => other = key

def dropSession (sessionKey : String) : ToolPermissionManager :=
  m.dropWhere fun _ slot => slot.view.sessionKey = sessionKey

/-- Inserts the slot of a request; one under the same key is dropped. -/
def register (n : ℕ) (view : PendingToolPermission) : ToolPermissionManager :=
  let replaced := m.dropKey view.key
  { replaced with pending := replaced.pending.insert view.key ⟨view, n⟩ }.setGate n (.waiting view)

/-- Takes the slot for a decision out of the map. -/
def resolve (r : ℕ) (call : ResolveCall) : ToolPermissionManager :=
  match call.decision with
  | .deny feedback =>
    if trim feedback = "" then
      m.setResolver r (.returned (.error "deny feedback must not be empty"))
    else take
  | _ => take
where
  take : ToolPermissionManager :=
    match m.pending[call.key]? with
    | none => m.setResolver r (.returned (.error "no pending tool permission request"))
    | some slot =>
      { m with pending := m.pending.erase call.key }.setResolver r (.holding slot call)

/-- Sends a decision; nobody gets it when the receiver is gone. -/
def send (r : ℕ) (slot : PendingSlot) (call : ResolveCall) : ToolPermissionManager :=
  let sent :=
    match m.gates slot.tx with
    | .waiting view => m.setGate slot.tx (.decided view r call)
    | _ => m
  sent.setResolver r (.returned (.ok slot.view))

end ToolPermissionManager

/-- What the settings of the session make of a request. -/
def gateMode (entry : Option (ToolPermissionMode × ToolPermissionType)) (view : PendingToolPermission) :
    GatePhase :=
  match entry with
  | none => .finished none
      (.failed ("session '" ++ view.sessionKey ++ "' not found for tool permission"))
  | some (.auto, _) => .finished none .approved
  | some (.moderated, type) =>
    if type ≠ .manual then .finished none (.failed "unsupported tool permission type")
    else .registering view

inductive PermissionAct where
  | gate (n : ℕ)
  | register (n : ℕ)
  | cancel (n : ℕ)
  | resolve (r : ℕ) (call : ResolveCall)
  | send (r : ℕ)
  | dropSession (sessionKey : String)
  deriving DecidableEq

inductive PermissionStep (m : ToolPermissionManager) : PermissionAct → ToolPermissionManager → Prop
  | enter {n : ℕ} (entry : Option (ToolPermissionMode × ToolPermissionType))
      (view : PendingToolPermission) (hphase : m.gates n = .idle) :
      PermissionStep m (.gate n) (m.setGate n (gateMode entry view))
  | register {n : ℕ} {view : PendingToolPermission} (hphase : m.gates n = .registering view) :
      PermissionStep m (.register n) (m.register n view)
  /-- The channel has a decision. -/
  | receive {n : ℕ} {view : PendingToolPermission} {r : ℕ} {call : ResolveCall}
      (hphase : m.gates n = .decided view r call) :
      PermissionStep m (.gate n) (m.setGate n (.removing view (.decided r call)))
  | hangUp {n : ℕ} {view : PendingToolPermission} (hphase : m.gates n = .closed view) :
      PermissionStep m (.gate n) (m.setGate n (.removing view .cancelled))
  | remove {n : ℕ} {view : PendingToolPermission} {outcome : GateOutcome}
      (hphase : m.gates n = .removing view outcome) :
      PermissionStep m (.gate n) ((m.dropKey view.key).setGate n (.finished (some view) outcome))
  /-- The token is cancelled before `recv` returns. -/
  | cancel {n : ℕ} {view : PendingToolPermission} (hlive : (m.gates n).live = some view) :
      PermissionStep m (.cancel n) (m.setGate n (.sweeping view))
  | sweep {n : ℕ} {view : PendingToolPermission} (hphase : m.gates n = .sweeping view) :
      PermissionStep m (.gate n)
        ((m.dropSession view.sessionKey).setGate n (.finished (some view) .cancelled))
  | resolve {r : ℕ} (call : ResolveCall) (hphase : m.resolvers r = .idle) :
      PermissionStep m (.resolve r call) (m.resolve r call)
  | send {r : ℕ} {slot : PendingSlot} {call : ResolveCall}
      (hphase : m.resolvers r = .holding slot call) :
      PermissionStep m (.send r) (m.send r slot call)
  | dropSession (sessionKey : String) :
      PermissionStep m (.dropSession sessionKey) (m.dropSession sessionKey)

namespace ToolPermissionManager

/-- A request is registered under a key that no other one still removes, and the slot under the
key of a decision is of the request that the decision is for. -/
def KeysApart (m : ToolPermissionManager) : PermissionAct → Prop
  | .register n => ∀ view, m.gates n = .registering view →
      ∀ other view', (m.gates other).live = some view' → view'.key ≠ view.key
  | .resolve _ call => ∀ slot, m.pending[call.key]? = some slot → slot.view.IsFor call
  | _ => True

def ApartStep (m : ToolPermissionManager) (act : PermissionAct) (m' : ToolPermissionManager) :
    Prop :=
  PermissionStep m act m' ∧ m.KeysApart act

end ToolPermissionManager

end Chelix.Chat
