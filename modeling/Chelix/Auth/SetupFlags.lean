import Chelix.Library.Run

/-!
# The setup flags

Two flags in memory say what the tables hold: whether a credential is stored, and whether
authentication was disabled by a reset.  The operations change the tables, the flags and the
stored flag one after another, and can fail between any two steps; those of different clients
interleave.
-/

namespace Chelix.Auth

open Chelix.Library

structure SetupStore where
  /-- The hash in `auth_password`, if there is a row. -/
  password : Option String
  /-- The ids of the rows of `passkeys`. -/
  passkeys : List ℕ
  /-- The flag in `auth_state`. -/
  storedDisabled : Bool
  setupComplete : Bool
  authDisabled : Bool

namespace SetupStore

def hasPassword (s : SetupStore) : Bool := s.password.isSome

def hasPasskeys (s : SetupStore) : Bool := !s.passkeys.isEmpty

/-- A password or a passkey is stored. -/
def hasCredential (s : SetupStore) : Bool := s.hasPassword || s.hasPasskeys

/-- The flags that a new process reads from the tables. -/
def load (s : SetupStore) : SetupStore :=
  { s with setupComplete := s.hasCredential, authDisabled := s.storedDisabled }

end SetupStore

/-! ## Requests -/

inductive AuthMethod where
  | loopback
  | password
  | apiKey
  deriving DecidableEq

inductive AuthResult where
  | allowed (method : AuthMethod)
  /-- No credentials are configured yet; only local connections pass. -/
  | setupRequired
  | unauthorized
  deriving DecidableEq

/-- What a request is allowed; it may carry a valid session and a valid API key. -/
def checkAuth (s : SetupStore) (isLocal session apiKey : Bool) : AuthResult :=
  if s.authDisabled then if isLocal then .allowed .loopback else .setupRequired
  else if !s.setupComplete then if isLocal then .allowed .loopback else .setupRequired
  else if session then .allowed .password
  else if apiKey then .allowed .apiKey
  else .unauthorized

/-! ## Operations -/

/-- What a client does next. -/
inductive SetupPhase where
  | idle
  /-- `set_initial_password` has found the setup incomplete. -/
  | settingInitial
  /-- `add_password` has found no password. -/
  | adding
  /-- `mark_setup_complete`, after a change of the tables or on its own. -/
  | marking (changed : Bool)
  | markingKeys (changed hasPassword : Bool)
  /-- `recompute_setup_complete`, after the removal of a passkey or on its own. -/
  | recomputing (changed : Bool)
  | recomputingKeys (changed : Bool)
  /-- The transaction with the password and the vault is committed. -/
  | unsealing
  | resettingSessions
  | resettingPasskeys
  | resettingOthers
  /-- The setup flag is stored, and then the other flag if the operation decides it. -/
  | storingSetup (value : Bool) (decides : Option Bool) (changed inTransaction : Bool)
  | storingDisabled (value inTransaction : Bool)
  | persisting (value : Bool)
  | configuring (value : Bool)
  /-- `change_password` has checked the current password. -/
  | changing
  deriving DecidableEq

/-- The store while any number of clients use it. -/
structure SetupRun where
  store : SetupStore
  phase : ℕ → SetupPhase
  /-- The last completed operation that decides the flag was a reset, or none has and the
  instance was created disabled. -/
  disabledByReset : Bool

/-- A process that has read its flags from the tables. -/
def SetupRun.start (store : SetupStore) : SetupRun where
  store := store.load
  phase := fun _ => .idle
  disabledByReset := store.storedDisabled

namespace SetupRun

def setPhase (s : SetupRun) (client : ℕ) (phase : SetupPhase) : SetupRun :=
  { s with phase := Function.update s.phase client phase }

def setStore (s : SetupRun) (store : SetupStore) : SetupRun := { s with store }

end SetupRun

inductive SetupEvent where
  | setInitial (client : ℕ)
  | add (client : ℕ)
  | insertPassword (client : ℕ) (hash : String)
  | prepareVault (client : ℕ) (hash : String)
  | unsealVault (client : ℕ)
  | storePasskey (client id : ℕ)
  | mark (client : ℕ)
  | readPassword (client : ℕ)
  | readPasskeys (client : ℕ)
  | removePasskey (client id : ℕ)
  | recompute (client : ℕ)
  | checkPassword (client : ℕ)
  | updatePassword (client : ℕ) (hash : String)
  | reset (client : ℕ)
  | resetNext (client : ℕ)
  | storeSetup (client : ℕ)
  | storeDisabled (client : ℕ)
  | persist (client : ℕ)
  | configure (client : ℕ)
  /-- The operation ends with an error, or is dropped. -/
  | fail (client : ℕ)
  /-- The process ends, whatever its clients are doing, and a new one starts. -/
  | restart
  deriving DecidableEq

/-- One step of one client. -/
inductive SetupStep (s : SetupRun) : SetupEvent → SetupRun → Prop
  | setInitial {client : ℕ} (hphase : s.phase client = .idle)
      (hsetup : s.store.setupComplete = false) :
      SetupStep s (.setInitial client) (s.setPhase client .settingInitial)
  | add {client : ℕ} (hphase : s.phase client = .idle) (hnone : s.store.hasPassword = false) :
      SetupStep s (.add client) (s.setPhase client .adding)
  | insertInitial {client : ℕ} {hash : String} (hphase : s.phase client = .settingInitial)
      (hnone : s.store.password = none) :
      SetupStep s (.insertPassword client hash)
        ((s.setStore { s.store with password := some hash }).setPhase client
          (.storingSetup true (some false) true false))
  | insertAdded {client : ℕ} {hash : String} (hphase : s.phase client = .adding)
      (hnone : s.store.password = none) :
      SetupStep s (.insertPassword client hash)
        ((s.setStore { s.store with password := some hash }).setPhase client (.marking true))
  | prepareVault {client : ℕ} {hash : String} (hphase : s.phase client = .idle)
      (hnone : s.store.password = none) :
      SetupStep s (.prepareVault client hash)
        ((s.setStore { s.store with password := some hash, storedDisabled := false }).setPhase
          client .unsealing)
  | unsealVault {client : ℕ} (hphase : s.phase client = .unsealing) :
      SetupStep s (.unsealVault client)
        (s.setPhase client (.storingSetup true (some false) true true))
  | storePasskey {client id : ℕ} (hphase : s.phase client = .idle)
      (hnew : id ∉ s.store.passkeys) :
      SetupStep s (.storePasskey client id)
        ((s.setStore { s.store with passkeys := s.store.passkeys ++ [id] }).setPhase client
          (.marking true))
  | mark {client : ℕ} (hphase : s.phase client = .idle) :
      SetupStep s (.mark client) (s.setPhase client (.marking false))
  | markPassword {client : ℕ} {changed : Bool} (hphase : s.phase client = .marking changed) :
      SetupStep s (.readPassword client)
        (s.setPhase client (.markingKeys changed s.store.hasPassword))
  | markPasskeys {client : ℕ} {changed hasPassword : Bool}
      (hphase : s.phase client = .markingKeys changed hasPassword)
      (hsome : (hasPassword || s.store.hasPasskeys) = true) :
      SetupStep s (.readPasskeys client)
        (s.setPhase client (.storingSetup true (some false) changed false))
  | removePasskey {client id : ℕ} (hphase : s.phase client = .idle) :
      SetupStep s (.removePasskey client id)
        ((s.setStore { s.store with passkeys := s.store.passkeys.filter (· ≠ id) }).setPhase client
          (.recomputing true))
  | recompute {client : ℕ} (hphase : s.phase client = .idle) :
      SetupStep s (.recompute client) (s.setPhase client (.recomputing false))
  | recomputePassword {client : ℕ} {changed : Bool}
      (hphase : s.phase client = .recomputing changed) :
      SetupStep s (.readPassword client)
        (s.setPhase client
          (if s.store.hasPassword then .storingSetup true none changed false
          else .recomputingKeys changed))
  | recomputePasskeys {client : ℕ} {changed : Bool}
      (hphase : s.phase client = .recomputingKeys changed) :
      SetupStep s (.readPasskeys client)
        (s.setPhase client (.storingSetup s.store.hasPasskeys none changed false))
  | checkPassword {client : ℕ} (hphase : s.phase client = .idle)
      (hsome : s.store.hasPassword = true) :
      SetupStep s (.checkPassword client) (s.setPhase client .changing)
  | updatePassword {client : ℕ} {hash : String} (hphase : s.phase client = .changing) :
      SetupStep s (.updatePassword client hash)
        ((s.setStore { s.store with password := s.store.password.map fun _ => hash }).setPhase
          client .idle)
  | reset {client : ℕ} (hphase : s.phase client = .idle) :
      SetupStep s (.reset client)
        ((s.setStore { s.store with password := none }).setPhase client .resettingSessions)
  | resetSessions {client : ℕ} (hphase : s.phase client = .resettingSessions) :
      SetupStep s (.resetNext client) (s.setPhase client .resettingPasskeys)
  | resetPasskeys {client : ℕ} (hphase : s.phase client = .resettingPasskeys) :
      SetupStep s (.resetNext client)
        ((s.setStore { s.store with passkeys := [] }).setPhase client .resettingOthers)
  | resetOthers {client : ℕ} (hphase : s.phase client = .resettingOthers) :
      SetupStep s (.resetNext client)
        (s.setPhase client (.storingSetup false (some true) true false))
  | storeSetup {client : ℕ} {value changed inTransaction : Bool} {decides : Option Bool}
      (hphase : s.phase client = .storingSetup value decides changed inTransaction) :
      SetupStep s (.storeSetup client)
        ((s.setStore { s.store with setupComplete := value }).setPhase client
          (decides.elim .idle (.storingDisabled · inTransaction)))
  | storeDisabled {client : ℕ} {value inTransaction : Bool}
      (hphase : s.phase client = .storingDisabled value inTransaction) :
      SetupStep s (.storeDisabled client)
        ((s.setStore { s.store with authDisabled := value }).setPhase client
          (if inTransaction then .configuring value else .persisting value))
  | persist {client : ℕ} {value : Bool} (hphase : s.phase client = .persisting value) :
      SetupStep s (.persist client)
        ((s.setStore { s.store with storedDisabled := value }).setPhase client
          (.configuring value))
  | configure {client : ℕ} {value : Bool} (hphase : s.phase client = .configuring value) :
      SetupStep s (.configure client)
        ({ s with disabledByReset := value }.setPhase client .idle)
  | fail {client : ℕ} : SetupStep s (.fail client) (s.setPhase client .idle)
  | restart : SetupStep s .restart { s with store := s.store.load, phase := fun _ => .idle }

end Chelix.Auth
