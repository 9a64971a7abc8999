import Chelix.Library.Sections
import Chelix.Secrets.KeyWrap

/-!
# The vault

The data key is in memory while the vault is unsealed, and its wrappers are in the database.  What
changes the wrappers runs in a transaction: one of its own, which it commits, or one of its caller,
who commits it or rolls it back later.  A transaction reads what was committed when it first read,
and one transaction at a time may write; the write of a transaction whose view is out of date is
refused.

Every statement may fail, for reasons of the database.
-/

namespace Chelix.Secrets

open Chelix.Library

/-! ## The database -/

/-- Who runs a transaction: an operation by itself, or some caller. -/
inductive Connection where
  | own
  | caller (n : ℕ)
  deriving DecidableEq

/-- What a transaction reads, and whether it holds the lock for writing. -/
structure Tx where
  /-- The number of commits before it first read, and the row that it reads. -/
  view : Option (ℕ × Option VaultRow)
  wrote : Bool

def Tx.unread : Tx where
  view := none
  wrote := false

structure Vault (Key : Type) where
  metadata : Option VaultRow
  commits : ℕ
  /-- Some transaction holds the lock for writing. -/
  locked : Bool
  txs : Connection → Tx
  dek : Option Key

/-- Before the vault is initialized. -/
def Vault.start (Key : Type) : Vault Key where
  metadata := none
  commits := 0
  locked := false
  txs := fun _ => .unread
  dek := none

/-- The statements of an operation. -/
inductive Statement where
  | begin
  | select
  | write
  | commit
  /-- The read of the row after an operation committed. -/
  | reload
  deriving DecidableEq

/-- The statements that fail, with the error of the database. -/
abbrev Faults := Statement → Option String

def noFaults : Faults := fun _ => none

abbrev VaultM (Key : Type) := CriticalSection VaultError (Vault Key)

section Transactions

variable {Key : Type}

def execute (faults : Faults) (statement : Statement) : VaultM Key Unit :=
  match faults statement with
  | none => pure ()
  | some message => throw (.database message)

/-- The row outside of any transaction. -/
def loadMetadata (faults : Faults) (statement : Statement) : VaultM Key (Option VaultRow) := do
  execute faults statement
  return (← get).metadata

def Vault.viewOf (s : Vault Key) (tx : Connection) : ℕ × Option VaultRow :=
  (s.txs tx).view.getD (s.commits, s.metadata)

def Vault.setTx (s : Vault Key) (tx : Connection) (t : Tx) : Vault Key :=
  { s with txs := Function.update s.txs tx t }

def loadMetadataInTransaction (faults : Faults) (tx : Connection) :
    VaultM Key (Option VaultRow) := do
  execute faults .select
  modify fun s => s.setTx tx { s.txs tx with view := some (s.viewOf tx) }
  return ((← get).viewOf tx).2

/-- Whether a transaction may write. -/
def Vault.mayWrite (s : Vault Key) (tx : Connection) : Bool :=
  (s.txs tx).wrote || (!s.locked && (s.viewOf tx).1 == s.commits)

def Vault.write (s : Vault Key) (tx : Connection) (row : VaultRow) : Vault Key :=
  { s.setTx tx { view := some ((s.viewOf tx).1, some row), wrote := true } with locked := true }

/-- Stores a row in a transaction. -/
def storeInTransaction (faults : Faults) (tx : Connection) (row : VaultRow) :
    VaultM Key Unit := do
  execute faults .write
  if (← get).mayWrite tx then modify fun s => s.write tx row
  else throw (.database "database is locked")

/-- A transaction that ends without a commit. -/
def Vault.rollback (s : Vault Key) (tx : Connection) : Vault Key :=
  { s.setTx tx .unread with locked := s.locked && !(s.txs tx).wrote }

/-- A transaction that ends with a commit. -/
def Vault.commit (s : Vault Key) (tx : Connection) : Vault Key :=
  if (s.txs tx).wrote then
    { s.setTx tx .unread with
      metadata := (s.viewOf tx).2, commits := s.commits + 1, locked := false }
  else s.setTx tx .unread

def commit (faults : Faults) (tx : Connection) : VaultM Key Unit := fun s =>
  match faults .commit with
  | none => .ok () (s.commit tx)
  | some message => .error (.database message) (s.rollback tx)

/-- Runs a section in a transaction of its own, which is dropped when the section fails. -/
def inOwnTransaction {α : Type} (faults : Faults) (section' : Connection → VaultM Key α) :
    VaultM Key α := fun s =>
  match (do execute faults .begin; section' .own : VaultM Key α) s with
  | .ok a s => match commit faults .own s with
    | .ok () s => .ok a s
    | .error e s => .error e s
  | .error e s => .error e (s.rollback .own)

end Transactions

/-! ## The operations -/

section Operations

variable {Key : Type} (c : Crypto Key)

def currentDek : VaultM Key Key := do
  match (← get).dek with
  | some dek => return dek
  | none => throw .sealed

def requireRow : Option VaultRow → VaultM Key VaultRow
  | some row => pure row
  | none => throw .notInitialized

/-- Returns the phrase of the recovery key. -/
def initializeInTransaction (faults : Faults) (password : String)
    (random : InitializeRandom Key) (tx : Connection) : VaultM Key String := do
  match ← loadMetadataInTransaction faults tx with
  | some _ => throw .alreadyInitialized
  | none =>
    let row ← CriticalSection.lift (initialRow c password random)
    storeInTransaction faults tx row
    return recoveryPhrase random.entropy

/-- `statement` is the read of the row. -/
def unsealAt (faults : Faults) (statement : Statement) (password : String) :
    VaultM Key Unit := do
  let row ← requireRow (← loadMetadata faults statement)
  let dek ← CriticalSection.lift (passwordKey c row password)
  modify fun s => { s with dek := some dek }

def unsealVault (faults : Faults) (password : String) : VaultM Key Unit :=
  unsealAt c faults .select password

def initializeVault (faults : Faults) (password : String) (random : InitializeRandom Key) :
    VaultM Key String := do
  let phrase ← inOwnTransaction faults fun tx =>
    initializeInTransaction c faults password random tx
  unsealAt c faults .reload password
  return phrase

def unsealWithRecovery (faults : Faults) (phrase : String) : VaultM Key Unit := do
  let row ← requireRow (← loadMetadata faults .select)
  let dek ← CriticalSection.lift (recoveryKey c row phrase)
  modify fun s => { s with dek := some dek }

def sealVault : VaultM Key Unit := modify fun s => { s with dek := none }

def changePasswordInTransaction (faults : Faults) (old new : String) (random : RewrapRandom)
    (tx : Connection) : VaultM Key Unit := do
  let row ← requireRow (← loadMetadataInTransaction faults tx)
  let params ← CriticalSection.lift (do
    let _ ← decodeSalt row.kdfSalt
    c.paramsFromStr row.kdfParams)
  let _ ← CriticalSection.lift (passwordKey c row old)
  let dek ← currentDek
  let row ← CriticalSection.lift (rewrappedRow c row params new dek random)
  storeInTransaction faults tx row

def changePassword (faults : Faults) (old new : String) (random : RewrapRandom) :
    VaultM Key Unit :=
  inOwnTransaction faults fun tx => changePasswordInTransaction c faults old new random tx

def rewrapUnsealedInTransaction (faults : Faults) (new : String) (random : RewrapRandom)
    (tx : Connection) : VaultM Key Unit := do
  let row ← requireRow (← loadMetadataInTransaction faults tx)
  let params ← CriticalSection.lift (c.paramsFromStr row.kdfParams)
  let dek ← currentDek
  let row ← CriticalSection.lift (rewrappedRow c row params new dek random)
  storeInTransaction faults tx row

def rewrapUnsealed (faults : Faults) (new : String) (random : RewrapRandom) : VaultM Key Unit :=
  inOwnTransaction faults fun tx => rewrapUnsealedInTransaction c faults new random tx

/-- The text of a string under the data key. -/
def encryptUnder (dek : Key) (nonce : Bytes) (plaintext aad : String) :
    Except VaultError String := do
  let encrypted ← c.encrypt dek nonce (utf8Bytes plaintext) (utf8Bytes aad)
  return toBase64 (c.versionTag :: encrypted)

def encryptString (plaintext aad : String) (nonce : Bytes) : VaultM Key String := do
  let dek ← currentDek
  CriticalSection.lift (encryptUnder c dek nonce plaintext aad)

/-- The string of a text under the data key. -/
def decryptUnder (dek : Key) (text aad : String) : Except VaultError String := do
  match ← fromBase64 text with
  | [] => throw (.cipherError "empty blob")
  | version :: ciphertext =>
    if version ≠ c.versionTag then
      throw (.cipherError ("unsupported cipher version: " ++ hexByte version))
    let plaintext ← c.decrypt dek ciphertext (utf8Bytes aad)
    match ofUtf8Bytes? plaintext with
    | some text => return text
    | none => throw (.cipherError (((utf8Error plaintext).map Utf8Error.text).getD ""))

def decryptString (text aad : String) : VaultM Key String := do
  let dek ← currentDek
  CriticalSection.lift (decryptUnder c dek text aad)

end Operations

/-! ## Steps -/

/-- One call, with what it draws at random and the statements that fail. -/
inductive Call (Key : Type) where
  | initializeVault (password : String) (random : InitializeRandom Key) (faults : Faults)
  | unsealVault (password : String) (faults : Faults)
  | unsealWithRecovery (phrase : String) (faults : Faults)
  | sealVault
  | changePassword (old new : String) (random : RewrapRandom) (faults : Faults)
  | rewrapUnsealed (new : String) (random : RewrapRandom) (faults : Faults)
  | initializeIn (n : ℕ) (password : String) (random : InitializeRandom Key) (faults : Faults)
  | changePasswordIn (n : ℕ) (old new : String) (random : RewrapRandom) (faults : Faults)
  | rewrapUnsealedIn (n : ℕ) (new : String) (random : RewrapRandom) (faults : Faults)
  | commit (n : ℕ) (faults : Faults)
  | rollback (n : ℕ)
  | encryptString (plaintext aad : String) (nonce : Bytes)
  | decryptString (text aad : String)

/-- What a call runs; the text that it returns is a phrase, a ciphertext or a plaintext. -/
def Call.run {Key : Type} (c : Crypto Key) : Call Key → VaultM Key String
  | .initializeVault password random faults => Secrets.initializeVault c faults password random
  | .unsealVault password faults => do Secrets.unsealVault c faults password; return ""
  | .unsealWithRecovery phrase faults => do Secrets.unsealWithRecovery c faults phrase; return ""
  | .sealVault => do Secrets.sealVault; return ""
  | .changePassword old new random faults => do
    Secrets.changePassword c faults old new random; return ""
  | .rewrapUnsealed new random faults => do Secrets.rewrapUnsealed c faults new random; return ""
  | .initializeIn n password random faults =>
    initializeInTransaction c faults password random (.caller n)
  | .changePasswordIn n old new random faults => do
    changePasswordInTransaction c faults old new random (.caller n); return ""
  | .rewrapUnsealedIn n new random faults => do
    rewrapUnsealedInTransaction c faults new random (.caller n); return ""
  | .commit n faults => do Secrets.commit faults (.caller n); return ""
  | .rollback n => do modify fun s => s.rollback (.caller n); return ""
  | .encryptString plaintext aad nonce => Secrets.encryptString c plaintext aad nonce
  | .decryptString text aad => Secrets.decryptString c text aad

end Chelix.Secrets
