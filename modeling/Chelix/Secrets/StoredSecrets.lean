import Chelix.Secrets.Vault
import Mathlib.Data.List.Sort

/-!
# Stored secrets

Environment variables and SSH keys are rows whose value is plain, or encrypted under the name of
the row.  A value that is set while the vault is sealed is stored plain, and a migration encrypts
such rows later: it reads them all, and then encrypts and overwrites one after the other by its
number alone.  Between two statements, or a statement and a call of the vault, anything else may
happen, and a task may end at any time.

Both tables work alike; they differ in the additional data of a row, in the prefix of its context,
and in what happens when a name is stored again.
-/

namespace Chelix.Secrets

open Chelix.Library

/-! ## Rows -/

structure SecretRow (Extra : Type) where
  id : ℕ
  name : String
  value : String
  encrypted : Bool
  extra : Extra

/-- What a table is for. -/
structure TableKind where
  /-- The context of a name. -/
  aad : String → String
  /-- Whether storing a name again replaces its row, or is refused. -/
  upsert : Bool

def envKind : TableKind where
  aad key := "env:" ++ key
  upsert := true

def sshKind : TableKind where
  aad name := "ssh-key:" ++ name
  upsert := false

/-- A plain row as a migration read it. -/
structure PlainRow where
  id : ℕ
  name : String
  plaintext : String

/-- How far storing a value is. -/
inductive WriteStage where
  | asked
  /-- The vault was seen unsealed. -/
  | encrypting
  | storing (text : String) (encrypted : Bool)

inductive Task (Extra : Type) where
  | idle
  | write (name value : String) (extra : Extra) (stage : WriteStage)
  /-- The rows that are left, and the row whose value was just encrypted. -/
  | migrate (rows : List PlainRow) (pending : Option (PlainRow × String))

structure SecretTable (Extra : Type) where
  rows : List (SecretRow Extra)
  /-- The last number that was given to a row. -/
  lastId : ℕ
  tasks : ℕ → Task Extra
  /-- What was last stored under a name, for the record: no step reads it. -/
  written : String → Option String

variable {Key Extra : Type} (c : Crypto Key) (kind : TableKind)

def decryptValue (memory : Option Key) (row : SecretRow Extra) : Except VaultError String :=
  if row.encrypted then
    match memory with
    | some dek => decryptUnder c dek row.value (kind.aad row.name)
    | none => .error .sealed
  else .ok row.value

/-! ## Actions on a table -/

inductive TableAction (Extra : Type) where
  /-- A value is to be stored. -/
  | begin (n : ℕ) (name value : String) (extra : Extra)
  /-- Storing asks whether encryption is enabled and the vault unsealed. -/
  | check (n : ℕ) (enabled : Bool)
  | encrypt (n : ℕ) (nonce : Bytes)
  | store (n : ℕ)
  /-- A migration reads the plain rows. -/
  | select (n : ℕ)
  | encryptRow (n : ℕ) (nonce : Bytes)
  | updateRow (n : ℕ)
  /-- A task fails or is dropped. -/
  | drop (n : ℕ)
  | setExtra (id : ℕ) (extra : Extra)
  | delete (id : ℕ)

namespace SecretTable

variable (t : SecretTable Extra)

def setTask (n : ℕ) (task : Task Extra) : SecretTable Extra :=
  { t with tasks := Function.update t.tasks n task }

def plainRows : List PlainRow :=
  (t.rows.filter fun row => !row.encrypted).map fun row => ⟨row.id, row.name, row.value⟩

/-- `INSERT … ON CONFLICT DO UPDATE`, or `INSERT`, which fails on a conflict. -/
def put (name value : String) (extra : Extra) (text : String) (encrypted : Bool) :
    SecretTable Extra :=
  if t.rows.any fun row => row.name == name then
    if kind.upsert then
      { t with
        rows := t.rows.map fun row =>
          if row.name = name then { row with value := text, encrypted, extra } else row
        written := Function.update t.written name (some value) }
    else t
  else
    { t with
      rows := t.rows ++ [⟨t.lastId + 1, name, text, encrypted, extra⟩]
      lastId := t.lastId + 1
      written := Function.update t.written name (some value) }

/-- `UPDATE … SET value = ?, encrypted = 1 WHERE id = ?` -/
def overwrite (id : ℕ) (text : String) : SecretTable Extra :=
  { t with
    rows := t.rows.map fun row =>
      if row.id = id then { row with value := text, encrypted := true } else row }

/-- `DELETE … WHERE id = ?` -/
def deleteRow (id : ℕ) : SecretTable Extra :=
  { t with
    rows := t.rows.filter fun row => row.id ≠ id
    written := fun name =>
      if t.rows.any fun row => row.id == id && row.name == name then none else t.written name }

/-- `UPDATE … SET secret = ?, enabled = ? WHERE id = ?` -/
def updateExtra (id : ℕ) (extra : Extra) : SecretTable Extra :=
  { t with rows := t.rows.map fun row => if row.id = id then { row with extra } else row }

/-- An action while the vault has some key in memory, or none; an action that does not fit its task
does nothing. -/
def step (memory : Option Key) : TableAction Extra → SecretTable Extra
  | .begin n name value extra =>
    match t.tasks n with
    | .idle => t.setTask n (.write name value extra .asked)
    | _ => t
  | .check n enabled =>
    match t.tasks n with
    | .write name value extra .asked =>
      t.setTask n (.write name value extra
        (if enabled && memory.isSome then .encrypting else .storing value false))
    | _ => t
  | .encrypt n nonce =>
    match t.tasks n with
    | .write name value extra .encrypting =>
      match memory.elim (.error .sealed) fun dek =>
        encryptUnder c dek nonce value (kind.aad name) with
      | .ok text => t.setTask n (.write name value extra (.storing text true))
      | .error _ => t.setTask n .idle
    | _ => t
  | .store n =>
    match t.tasks n with
    | .write name value extra (.storing text encrypted) =>
      (t.put kind name value extra text encrypted).setTask n .idle
    | _ => t
  | .select n =>
    match t.tasks n with
    | .idle => t.setTask n (.migrate t.plainRows none)
    | _ => t
  | .encryptRow n nonce =>
    match t.tasks n with
    | .migrate (row :: rows) none =>
      match memory.elim (.error .sealed) fun dek =>
        encryptUnder c dek nonce row.plaintext (kind.aad row.name) with
      | .ok text => t.setTask n (.migrate rows (some (row, text)))
      | .error _ => t.setTask n .idle
    | _ => t
  | .updateRow n =>
    match t.tasks n with
    | .migrate rows (some (row, text)) =>
      (t.overwrite row.id text).setTask n (.migrate rows none)
    | _ => t
  | .drop n => t.setTask n .idle
  | .setExtra id extra => t.updateExtra id extra
  | .delete id => t.deleteRow id

end SecretTable

/-! ## The vault and its tables -/

/-- What the user chose for a variable. -/
structure EnvFlags where
  secret : Bool
  enabled : Bool
  deriving DecidableEq

/-- The public part of an SSH key. -/
structure SshInfo where
  publicKey : String
  fingerprint : String
  deriving DecidableEq

structure Store (Key : Type) where
  /-- The data key, while the vault is unsealed. -/
  memory : Option Key
  env : SecretTable EnvFlags
  ssh : SecretTable SshInfo

inductive Action where
  | sealVault
  | unsealVault
  | env (action : TableAction EnvFlags)
  | ssh (action : TableAction SshInfo)

/-- `dek` is the data key of the vault, which no operation of the vault changes. -/
def Store.step (dek : Key) (s : Store Key) : Action → Store Key
  | .sealVault => { s with memory := none }
  | .unsealVault => { s with memory := some dek }
  | .env action => { s with env := s.env.step c envKind s.memory action }
  | .ssh action => { s with ssh := s.ssh.step c sshKind s.memory action }

/-- The decrypted variables that are enabled, in the order of their names. -/
def Store.getEnabledEnvValues (s : Store Key) :
    Except VaultError (List (String × String)) :=
  ((s.env.rows.filter fun row => row.extra.enabled).insertionSort
    fun row row' => row.name ≤ row'.name).mapM fun row => do
      let value ← decryptValue c envKind s.memory row
      return (row.name, value)

/-- The private key of some number. -/
def Store.getSshPrivateKey (s : Store Key) (id : ℕ) : Except VaultError (Option String) :=
  match s.ssh.rows.find? fun row => row.id == id with
  | none => .ok none
  | some row => do
    let value ← decryptValue c sshKind s.memory row
    return some value

end Chelix.Secrets
