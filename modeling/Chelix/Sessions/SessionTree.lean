import Chelix.Library.Forest
import Chelix.Library.Run
import Mathlib.Data.String.Basic

/-!
# The session metadata store

A session may name a parent session; nothing in the schema says that the parent exists.  The
operations run in transactions, so each is one function of the store.
-/

namespace Chelix.Sessions

open Chelix.Library

inductive PromptProfile where
  | chat
  | subagent
  deriving DecidableEq

inductive ToolPermissionMode where
  | auto
  | moderated
  deriving DecidableEq

inductive ToolPermissionType where
  | manual
  deriving DecidableEq

structure ModelReasoning where
  modelId : String
  reasoningEffort : String
  deriving DecidableEq

structure SessionRow where
  key : String
  label : Option String := none
  modelReasoning : ModelReasoning
  projectId : Option String := none
  archived : Bool := false
  worktreeBranch : Option String := none
  /-- JSON. -/
  channelBinding : Option String := none
  parentSessionKey : Option String := none
  sandboxOwnerKey : Option String := none
  forkPoint : Option ℕ := none
  agentId : Option String := none
  promptProfile : PromptProfile := .chat
  toolPermissionMode : ToolPermissionMode := .auto
  toolPermissionType : ToolPermissionType := .manual
  version : ℕ := 0
  deriving DecidableEq

/-- A row of `channel_sessions`; a chat without a thread has the empty thread id. -/
structure ChannelSession where
  channelType : String
  accountId : String
  chatId : String
  threadId : String
  sessionKey : String
  deriving DecidableEq

structure ChannelBinding where
  channelType : String
  accountId : String
  chatId : String
  threadId : Option String

def ChannelBinding.defaultSessionKey (binding : ChannelBinding) : String :=
  let chat := binding.channelType ++ ":" ++ binding.accountId ++ ":" ++ binding.chatId
  match binding.threadId with
  | some threadId => chat ++ ":" ++ threadId
  | none => chat

inductive SessionError where
  | message (text : String)
  /-- The primary key is taken. -/
  | uniqueKey
  /-- The project does not exist. -/
  | foreignKey
  /-- The channel binding is not valid JSON of a binding. -/
  | invalidBinding
  deriving DecidableEq

structure SessionStore where
  rows : List SessionRow
  keys : (rows.map (·.key)).Nodup
  channels : List ChannelSession
  /-- The ids of the projects. -/
  projects : List String

namespace SessionStore

/-! ## Statements -/

section Statements

variable (s : SessionStore)

def fetchEntry (key : String) : Option SessionRow := s.rows.find? (·.key = key)

/-- The parent that a session names. -/
def parentOf (key : String) : Option String :=
  (s.fetchEntry key).bind (·.parentSessionKey)

/-- `none` where the key is taken. -/
def insert (row : SessionRow) : Option SessionStore :=
  if h : row.key ∈ s.rows.map (·.key) then none
  else some
    { s with
      rows := s.rows ++ [row]
      keys := by
        rw [List.map_append, List.map_singleton]
        refine List.nodup_append.mpr ⟨s.keys, List.nodup_singleton _, ?_⟩
        rintro a ha b hb rfl
        exact h (List.mem_singleton.mp hb ▸ ha) }

/-- A row with the columns of another and its own key. -/
def withKey (key : String) (change : SessionRow → SessionRow) (row : SessionRow) : SessionRow :=
  if row.key = key then { change row with key } else row

@[simp] theorem withKey_key (key : String) (change : SessionRow → SessionRow) (row : SessionRow) :
    (withKey key change row).key = row.key := by
  unfold withKey
  split
  · next h => exact h.symm
  · rfl

/-- The update changes any column but the key. -/
def update (key : String) (change : SessionRow → SessionRow) : SessionStore :=
  { s with
    rows := s.rows.map (withKey key change)
    keys := by
      rw [List.map_map]
      have hsame : (fun row => row.key) ∘ withKey key change = fun row => row.key :=
        funext fun row => withKey_key key change row
      rw [hsame]
      exact s.keys }

def delete (drop : SessionRow → Bool) : SessionStore :=
  { s with
    rows := s.rows.filter fun row => !drop row
    keys := s.keys.sublist (List.filter_sublist.map _) }

end Statements

/-! ## Creation -/

section Creation

variable (s : SessionStore)

def createSession (key : String) (label : Option String) (modelReasoning : ModelReasoning)
    (agentId : Option String) : Except SessionError (SessionRow × SessionStore) :=
  let row : SessionRow := { key, label, modelReasoning, agentId }
  match s.insert row with
  | some store => .ok (row, store)
  | none => .error .uniqueKey

inductive EnsureSessionOutcome where
  | created (entry : SessionRow)
  | existing (entry : SessionRow)

def ensureSession (key : String) (label : Option String) (modelReasoning : ModelReasoning)
    (agentId : Option String) : EnsureSessionOutcome × SessionStore :=
  let row : SessionRow := { key, label, modelReasoning, agentId }
  match s.insert row, s.fetchEntry key with
  | some store, _ => (.created row, store)
  | none, some entry => (.existing entry, s)
  | none, none => (.existing row, s)

def createSubagentSession (key label parentSessionKey sandboxOwnerKey agentId : String)
    (modelReasoning : ModelReasoning) : Except SessionError (SessionRow × SessionStore) :=
  let row : SessionRow :=
    { key, label := some label, modelReasoning, parentSessionKey := some parentSessionKey,
      sandboxOwnerKey := some sandboxOwnerKey, agentId := some agentId,
      promptProfile := .subagent }
  match s.insert row with
  | some store => .ok (row, store)
  | none => .error .uniqueKey

/-- A session that exists keeps its parent. -/
def createOrAssignAgent (key agentId : String) (modelReasoning : ModelReasoning) : SessionStore :=
  match s.insert { key, modelReasoning, agentId := some agentId } with
  | some store => store
  | none =>
    s.update key fun row =>
      { row with agentId := some agentId, modelReasoning, version := row.version + 1 }

end Creation

/-! ## Changes -/

structure SessionPatch where
  label : Option String := none
  modelReasoning : Option ModelReasoning := none
  archived : Option Bool := none
  projectId : Option (Option String) := none
  worktreeBranch : Option (Option String) := none
  parentSessionKey : Option (Option String) := none
  toolPermissionMode : Option ToolPermissionMode := none
  toolPermissionType : Option ToolPermissionType := none
  deriving DecidableEq

def SessionPatch.isEmpty (patch : SessionPatch) : Bool :=
  patch.label.isNone && patch.modelReasoning.isNone && patch.archived.isNone &&
    patch.projectId.isNone && patch.worktreeBranch.isNone && patch.parentSessionKey.isNone &&
    patch.toolPermissionMode.isNone && patch.toolPermissionType.isNone

/-- The columns that the patch names; a new parent clears the fork point. -/
def SessionPatch.change (patch : SessionPatch) (row : SessionRow) : SessionRow :=
  { row with
    label := patch.label.or row.label
    modelReasoning := patch.modelReasoning.getD row.modelReasoning
    archived := patch.archived.getD row.archived
    projectId := patch.projectId.getD row.projectId
    worktreeBranch := patch.worktreeBranch.getD row.worktreeBranch
    parentSessionKey := patch.parentSessionKey.getD row.parentSessionKey
    forkPoint := if patch.parentSessionKey.isSome then none else row.forkPoint
    toolPermissionMode := patch.toolPermissionMode.getD row.toolPermissionMode
    toolPermissionType := patch.toolPermissionType.getD row.toolPermissionType
    version := row.version + 1 }

section Changes

variable (s : SessionStore)

/-- The recursive query over the parents adds each key once, and finds the session itself where
the new parent is below it. -/
def createsCycle (key parentSessionKey : String) : Bool :=
  key ∈ ancestors s.parentOf (s.rows.length + 1) [] parentSessionKey

def validateParentPatch (key : String) (entry : SessionRow) :
    Option String → Except SessionError Unit
  | none =>
    if entry.promptProfile = .subagent then
      .error (.message ("session '" ++ key ++
        "' is a sub-agent session and cannot be reparented"))
    else .ok ()
  | some parentSessionKey =>
    if entry.promptProfile = .subagent then
      .error (.message ("session '" ++ key ++
        "' is a sub-agent session and cannot be reparented"))
    else if parentSessionKey = key then
      .error (.message "a session cannot be its own parent")
    else if s.fetchEntry parentSessionKey = none then
      .error (.message ("parent session '" ++ parentSessionKey ++ "' not found"))
    else if s.createsCycle key parentSessionKey then
      .error (.message "parent assignment would create a cycle")
    else .ok ()

/-- The session that answers in the chat of the binding. -/
def activeKey (binding : ChannelBinding) : String :=
  ((s.channels.find? fun channel =>
    channel.channelType = binding.channelType ∧ channel.accountId = binding.accountId ∧
      channel.chatId = binding.chatId ∧ channel.threadId = binding.threadId.getD "").map
    (·.sessionKey)).getD binding.defaultSessionKey

variable (readBinding : String → Option ChannelBinding)

def validateArchivePatch (entry : SessionRow) : Except SessionError Unit :=
  match entry.channelBinding with
  | none => .ok ()
  | some json =>
    match readBinding json with
    | none => .error .invalidBinding
    | some binding =>
      if s.activeKey binding = entry.key then
        .error (.message ("session '" ++ entry.key ++ "' cannot be archived"))
      else .ok ()

/-- The checks of the columns that the patch names. -/
def SessionPatch.validate (patch : SessionPatch) (key : String) (current : SessionRow) :
    Except SessionError Unit := do
  patch.parentSessionKey.elim (.ok ()) (s.validateParentPatch key current)
  if patch.archived = some true then s.validateArchivePatch readBinding current else .ok ()

/-- The project that the patch sets exists. -/
def projectExists (patch : SessionPatch) : Bool :=
  match patch.projectId with
  | some (some projectId) => projectId ∈ s.projects
  | _ => true

def patchSession (key : String) (patch : SessionPatch) : Except SessionError SessionStore :=
  match s.fetchEntry key with
  | none => .error (.message ("session '" ++ key ++ "' not found"))
  | some current =>
    if patch.isEmpty then .ok s
    else do
      patch.validate s readBinding key current
      if s.projectExists patch then .ok (s.update key patch.change) else .error .foreignKey

/-- Neither the parent nor its ancestors are looked at. -/
def setParent (key : String) (parentSessionKey : Option String) (forkPoint : Option ℕ) :
    Except SessionError SessionStore :=
  match s.fetchEntry key with
  | none => .error (.message ("session '" ++ key ++ "' not found"))
  | some _ =>
    .ok (s.update key fun row =>
      { row with parentSessionKey, forkPoint, version := row.version + 1 })

/-! ## Removal -/

def deleteByAgentId (agentId : String) : SessionStore :=
  s.delete fun row => row.agentId = some agentId

def remove (key : String) : Option SessionRow × SessionStore :=
  match s.fetchEntry key with
  | none => (none, s)
  | some entry =>
    (some entry, { s.delete (·.key = key) with
      channels := s.channels.filter fun channel => channel.sessionKey ≠ key })

/-! ## The tree -/

/-- The recursive query adds the sessions of one level after another; `none` where it has not
ended after one level for each session. -/
def snapshotTreeLeafToRoot (rootKey : String) : Option (List String) :=
  leafToRoot (s.rows.map (·.key)) s.parentOf s.rows.length rootKey

end Changes

end SessionStore

/-! ## Operations -/

inductive SessionOp where
  | createSession (key : String) (label : Option String) (modelReasoning : ModelReasoning)
      (agentId : Option String)
  | ensureSession (key : String) (label : Option String) (modelReasoning : ModelReasoning)
      (agentId : Option String)
  | createSubagentSession (key label parentSessionKey sandboxOwnerKey agentId : String)
      (modelReasoning : ModelReasoning)
  | createOrAssignAgent (key agentId : String) (modelReasoning : ModelReasoning)
  | patchSession (key : String) (patch : SessionStore.SessionPatch)
  | setParent (key : String) (parentSessionKey : Option String) (forkPoint : Option ℕ)
  | remove (key : String)
  | deleteByAgentId (agentId : String)

/-- The store after a transaction that may have failed. -/
def SessionStore.committed (s : SessionStore) : Except SessionError SessionStore → SessionStore
  | .ok store => store
  | .error _ => s

def SessionStore.apply (readBinding : String → Option ChannelBinding) (s : SessionStore) :
    SessionOp → SessionStore
  | .createSession key label modelReasoning agentId =>
    s.committed ((s.createSession key label modelReasoning agentId).map (·.2))
  | .ensureSession key label modelReasoning agentId =>
    (s.ensureSession key label modelReasoning agentId).2
  | .createSubagentSession key label parentSessionKey sandboxOwnerKey agentId modelReasoning =>
    s.committed ((s.createSubagentSession key label parentSessionKey sandboxOwnerKey agentId
      modelReasoning).map (·.2))
  | .createOrAssignAgent key agentId modelReasoning =>
    s.createOrAssignAgent key agentId modelReasoning
  | .patchSession key patch => s.committed (s.patchSession readBinding key patch)
  | .setParent key parentSessionKey forkPoint =>
    s.committed (s.setParent key parentSessionKey forkPoint)
  | .remove key => (s.remove key).2
  | .deleteByAgentId agentId => s.deleteByAgentId agentId

end Chelix.Sessions
