import Chelix.Config.ContainerMounts

/-!
# Sandboxes

A session runs its commands in the sandbox of its owner, a container.  Everything that belongs to
a sandbox is named after the owner key: the container, its startup gate, what is known of its tools
service, and its home on the host.
-/

namespace Chelix.Tools

open Chelix.Library Path

inductive SandboxMode where
  | off
  | on
  deriving DecidableEq

inductive SandboxScope where
  | session
  | agent
  | shared
  deriving DecidableEq

/-- The sandbox configuration; `declared` has the fields that the mount plan reads. -/
structure SandboxConfig where
  mode : SandboxMode
  scope : SandboxScope
  containerPrefix : Option String
  declared : Config.SandboxConfig

/-- What the program finds on its host. -/
structure Host where
  dataDir : Path
  configDir : Path
  /-- The host path of the data directory, if the program runs in a container itself. -/
  detectHostDataDir : Option Path
  canonicalize : Path → Option Path

structure SandboxId where
  scope : SandboxScope
  key : String
  deriving DecidableEq

/-! ## Names -/

def isKept (c : Char) : Bool := c.isAlphanum || c = '-' || c = '_' || c = '.'

def sanitizeChar (c : Char) : Char := if isKept c then c else '-'

def sanitize (input : String) : String := String.ofList (input.toList.map sanitizeChar)

def sanitizePathComponent (input : String) : String :=
  if (sanitize input).isEmpty then "default" else sanitize input

section Names

variable (cfg : SandboxConfig) (host : Host)

def sandboxIdFor (ownerKey : String) : SandboxId where
  scope := cfg.scope
  key := sanitize ownerKey

def containerName (id : SandboxId) : String :=
  cfg.containerPrefix.getD "chelix-sandbox" ++ "-" ++ id.key

/-- The configured host path of the data directory, without the white space at its ends. -/
def SandboxConfig.hostDataDir : Option Path := Config.configuredDir cfg.declared.hostDataDir

def configuredHostDataDir : Option Path :=
  cfg.hostDataDir.map fun path => if path.isAbsolute then path else join host.dataDir path

def hostVisibleDataDir : Path :=
  (configuredHostDataDir cfg host).getD (host.detectHostDataDir.getD host.dataDir)

def hostVisiblePath (path : Path) : Path :=
  match path.stripPrefix host.dataDir with
  | none => path
  | some relative =>
    if relative = [] then hostVisibleDataDir cfg host
    else join (hostVisibleDataDir cfg host) relative

def mountPlanConfig : Config.SandboxConfig :=
  { cfg.declared with
    hostDataDir := cfg.hostDataDir.map Config.display
    sharedHomeDir := (Config.configuredDir cfg.declared.sharedHomeDir).map Config.display }

def mountPlanContext : Config.MountPlanContext :=
  .active (mountPlanConfig cfg) host.dataDir host.configDir

def sandboxMountPlan : List Config.SandboxMount :=
  (Config.sandboxMountAnalysis host.canonicalize (mountPlanConfig cfg)
    (mountPlanContext cfg host)).mounts

def hostVisibleMountPath (mount : Config.SandboxMount) : Path :=
  if mount.guest.components = host.dataDir.components then hostVisibleDataDir cfg host
  else if (configuredHostDataDir cfg host).any mount.host.startsWith then mount.host
  else hostVisiblePath cfg host mount.host

def isHome (mount : Config.SandboxMount) : Bool :=
  mount.guest.components = Config.sandboxHomeDir.components

/-- A mount of the plan, with the home of the session. -/
def sessionMount (id : SandboxId) (mount : Config.SandboxMount) : Config.SandboxMount :=
  if cfg.declared.homePersistence = .session ∧ isHome mount then
    { mount with host := join mount.host (sanitizePathComponent id.key).toList }
  else mount

/-- The same mount, with the path that the container runtime sees. -/
def hostVisibleMount (mount : Config.SandboxMount) : Config.SandboxMount :=
  { mount with host := hostVisibleMountPath cfg host mount }

def resolvedSandboxMountPlan (id : SandboxId) : List Config.SandboxMount :=
  (sandboxMountPlan cfg host).map fun mount => hostVisibleMount cfg host (sessionMount cfg id mount)

/-- The directories that are made for the home of a sandbox, by their components. -/
def homeDirs (id : SandboxId) : List (List Component) :=
  ((resolvedSandboxMountPlan cfg host id).filter isHome).map (·.host.components)

end Names

/-! ## State -/

structure Container where
  running : Bool
  hasToolsToken : Bool
  prebuilt : Bool
  mounts : List Config.SandboxMount
  deriving DecidableEq

structure SandboxState where
  /-- The containers of the runtime, by name. -/
  containers : String → Option Container
  /-- The directories that were made for homes. -/
  homes : List Component → Bool
  provisioned : String → Bool
  startupGates : String → Option ℕ
  nextGate : ℕ
  toolsEndpoints : String → Bool
  /-- The owner keys whose sandbox was announced. -/
  preparedSessions : String → Bool

def SandboxState.new (containers : String → Option Container) (homes : List Component → Bool) :
    SandboxState where
  containers
  homes
  provisioned _ := false
  startupGates _ := none
  nextGate := 0
  toolsEndpoints _ := false
  preparedSessions _ := false

inductive ToolsHealthStatus where
  | ready
  | protocolMismatch
  deriving DecidableEq

/-- What the container runtime and the tools service answer to an operation. -/
structure Outcomes where
  inspect : Bool := true
  start : Bool := true
  /-- The image of a new container, and whether it is a prebuilt one. -/
  image : Except String Bool := .ok true
  homeDirs : Bool := true
  run : Bool := true
  probe : Option ToolsHealthStatus := some .ready
  discover : Option ToolsHealthStatus := some .ready
  update : Bool := true
  discoverUpdated : Option ToolsHealthStatus := some .ready
  provision : Bool := true
  unshared : Bool := true
  stop : Bool := true
  remove : Bool := true

/-- An operation: its result, and the state it leaves also when it fails. -/
abbrev SandboxM := ExceptT String (StateM SandboxState)

def modifyState (change : SandboxState → SandboxState) : SandboxM Unit := modify change

/-- Goes on if the answer is good. -/
def require (ok : Bool) (message : String) : SandboxM Unit :=
  if ok then pure () else throw message

def setContainer (name : String) (container : Option Container) : SandboxM Unit :=
  modifyState fun s => { s with containers := Function.update s.containers name container }

def setProvisioned (name : String) (value : Bool) : SandboxM Unit :=
  modifyState fun s => { s with provisioned := Function.update s.provisioned name value }

def setToolsEndpoint (name : String) (value : Bool) : SandboxM Unit :=
  modifyState fun s => { s with toolsEndpoints := Function.update s.toolsEndpoints name value }

def setStartupGate (name : String) (gate : Option ℕ) : SandboxM Unit :=
  modifyState fun s => { s with startupGates := Function.update s.startupGates name gate }

def setPrepared (ownerKey : String) (value : Bool) : SandboxM Unit :=
  modifyState fun s =>
    { s with preparedSessions := Function.update s.preparedSessions ownerKey value }

/-! ## The backend -/

section Backend

variable (cfg : SandboxConfig) (host : Host) (answer : Outcomes) (id : SandboxId)

/-- The gate of a container, a new one if there is none. -/
def startupGateFor (name : String) : SandboxM ℕ := ExceptT.mk fun s =>
  match s.startupGates name with
  | some gate => (.ok gate, s)
  | none =>
    (.ok s.nextGate,
      { s with startupGates := Function.update s.startupGates name (some s.nextGate)
               nextGate := s.nextGate + 1 })

def createContainer : SandboxM Container := do
  match answer.image with
  | .error message => throw message
  | .ok prebuilt =>
    require answer.homeDirs "could not create the home directory"
    modifyState fun s =>
      { s with homes := fun dir => s.homes dir || decide (dir ∈ homeDirs cfg host id) }
    require answer.run ("run failed for container " ++ containerName cfg id)
    let container :=
      { running := true, hasToolsToken := true, prebuilt
        mounts := resolvedSandboxMountPlan cfg host id : Container }
    setContainer (containerName cfg id) (some container)
    pure container

/-- The container, started, and whether its endpoint is known. -/
def ensureContainer : SandboxM (Container × Bool) := do
  let name := containerName cfg id
  require answer.inspect ("inspect failed for container " ++ name)
  match (← get).containers name with
  | some container =>
    require container.hasToolsToken ("container " ++ name ++ " has no tools service token")
    if container.running then
      pure (container, (← get).toolsEndpoints name)
    else
      require answer.start ("start failed for container " ++ name)
      setContainer name (some { container with running := true })
      pure ({ container with running := true }, false)
  | none =>
    setProvisioned name false
    setToolsEndpoint name false
    let container ← createContainer cfg host answer id
    pure (container, false)

def discoverToolsServiceEndpoint (name : String) (health : Option ToolsHealthStatus) :
    SandboxM ToolsHealthStatus :=
  match health with
  | some status => pure status
  | none => throw ("tools service in container " ++ name ++ " did not become ready")

/-- Puts the tools service of this program into the container. -/
def updateToolsService (name : String) : SandboxM Unit := do
  require answer.update ("cp failed for container " ++ name)
  let status ← discoverToolsServiceEndpoint name answer.discoverUpdated
  require (status ≠ .protocolMismatch)
    ("tools service protocol mismatch in container " ++ name ++ " after update")

def provisionPackages (name : String) : SandboxM Unit := do
  if !(← get).provisioned name then
    setProvisioned name true
    if !answer.provision then
      setProvisioned name false
      throw ("provisioning failed for container " ++ name)

def ensureReadyLocked : SandboxM Unit := do
  let name := containerName cfg id
  let (container, cached) ← ensureContainer cfg host answer id
  -- a known endpoint that answers is ready, and nothing else is looked at
  if cached && answer.probe = some .ready then
    pure ()
  else
    let status ← discoverToolsServiceEndpoint name
      (if cached && answer.probe = some .protocolMismatch then answer.probe else answer.discover)
    if status = .protocolMismatch then
      updateToolsService answer name
    setToolsEndpoint name true
    if !container.prebuilt then
      provisionPackages answer name

def ensureReady : SandboxM Unit := do
  let name := containerName cfg id
  let _gate ← startupGateFor name
  try
    ensureReadyLocked cfg host answer id
  catch message =>
    if answer.unshared then
      setStartupGate name none
    throw message

def stopSandbox : SandboxM Unit := do
  let name := containerName cfg id
  if answer.stop then
    modifyState fun s =>
      { s with containers := Function.update s.containers name
                 ((s.containers name).map fun container => { container with running := false }) }
  setToolsEndpoint name false

def removeDiscarded : SandboxM Unit := do
  let name := containerName cfg id
  setProvisioned name false
  setStartupGate name none
  setToolsEndpoint name false
  if answer.remove then
    setContainer name none

def cleanup : SandboxM Unit := do
  let name := containerName cfg id
  require answer.remove ("rm -fv failed for container " ++ name)
  setContainer name none
  setProvisioned name false
  setStartupGate name none
  setToolsEndpoint name false

end Backend

/-! ## The router -/

/-- The operations of the router, with the session or the owner they are called for. -/
inductive SandboxOp where
  | prepareCommandSession (sessionKey : String)
  | cleanupSession (sessionKey : String)
  | cleanupOwnerSandbox (ownerKey : String)
  | stopOwnedSandboxBackground (ownerKey : String)
  | removeOwnedSandboxBackground (ownerKey : String)

section Router

variable (cfg : SandboxConfig) (host : Host) (resolver : String → Except String String)
  (answer : Outcomes)

def resolveOwnerKey (sessionKey : String) : Except String String :=
  if cfg.mode = .on then resolver sessionKey else .ok sessionKey

def prepareCommandSession (sessionKey : String) : SandboxM SandboxId := do
  match resolveOwnerKey cfg resolver sessionKey with
  | .error message => throw message
  | .ok ownerKey =>
    let announce := !(← get).preparedSessions ownerKey
    setPrepared ownerKey true
    try
      ensureReady cfg host answer (sandboxIdFor cfg ownerKey)
    catch message =>
      if announce then
        setPrepared ownerKey false
      throw message
    pure (sandboxIdFor cfg ownerKey)

def cleanupOwnerSandbox (ownerKey : String) : SandboxM Unit := do
  cleanup cfg answer (sandboxIdFor cfg ownerKey)
  setPrepared ownerKey false

def cleanupSession (sessionKey : String) : SandboxM Unit :=
  match resolveOwnerKey cfg resolver sessionKey with
  | .error message => throw message
  | .ok ownerKey =>
    if sessionKey ≠ ownerKey then pure () else cleanupOwnerSandbox cfg answer ownerKey

def removeOwnedSandboxBackground (ownerKey : String) : SandboxM Unit := do
  setPrepared ownerKey false
  removeDiscarded cfg answer (sandboxIdFor cfg ownerKey)

def stopOwnedSandboxBackground (ownerKey : String) : SandboxM Unit :=
  stopSandbox cfg answer (sandboxIdFor cfg ownerKey)

def SandboxOp.execute : SandboxOp → SandboxM Unit
  | prepareCommandSession sessionKey => do
      let _id ← Tools.prepareCommandSession cfg host resolver answer sessionKey
  | cleanupSession sessionKey => Tools.cleanupSession cfg resolver answer sessionKey
  | cleanupOwnerSandbox ownerKey => Tools.cleanupOwnerSandbox cfg answer ownerKey
  | stopOwnedSandboxBackground ownerKey => Tools.stopOwnedSandboxBackground cfg answer ownerKey
  | removeOwnedSandboxBackground ownerKey => Tools.removeOwnedSandboxBackground cfg answer ownerKey

/-- The owner an operation is for. -/
def SandboxOp.owner : SandboxOp → Except String String
  | prepareCommandSession sessionKey => resolveOwnerKey cfg resolver sessionKey
  | cleanupSession sessionKey => resolveOwnerKey cfg resolver sessionKey
  | cleanupOwnerSandbox ownerKey => .ok ownerKey
  | stopOwnedSandboxBackground ownerKey => .ok ownerKey
  | removeOwnedSandboxBackground ownerKey => .ok ownerKey

/-- One operation, whatever its result is. -/
def SandboxStep (s : SandboxState) (event : SandboxOp × Outcomes) (t : SandboxState) : Prop :=
  t = (event.1.execute cfg host resolver event.2 s).2

end Router

end Chelix.Tools
