import Chelix.Library.Base64
import Chelix.Library.Results
import Chelix.Library.Utf8

/-!
# Keys and the texts that hold them

A text is encrypted under a data key, and the data key is stored twice: encrypted under a key that
is derived from the password, and under a key that is derived from the recovery phrase.

The cipher, the key derivation, the hash and the codec of the parameters are not of this program;
they are what a `Crypto` is made of, and so is the upper case of a character.  A random nonce is an
argument.
-/

namespace Chelix.Secrets

open Chelix.Library

abbrev Bytes := List UInt8

inductive VaultError where
  | sealed
  | alreadyInitialized
  | notInitialized
  | badCredential
  | cipherError (message : String)
  | base64
  | database (message : String)
  | json (message : String)
  deriving DecidableEq

structure KdfParams where
  mCost : UInt32
  tCost : UInt32
  pCost : UInt32
  deriving DecidableEq

namespace KdfParams

def default : KdfParams where
  mCost := 65536
  tCost := 3
  pCost := 1

def recovery : KdfParams where
  mCost := 16384
  tCost := 2
  pCost := 1

end KdfParams

/-- The primitives that the vault is built on, for some type of keys. -/
structure Crypto (Key : Type) where
  versionTag : UInt8
  /-- The key, the nonce, the plaintext and the additional data. -/
  encrypt : Key → Bytes → Bytes → Bytes → Except VaultError Bytes
  /-- The key, the ciphertext and the additional data. -/
  decrypt : Key → Bytes → Bytes → Except VaultError Bytes
  /-- The password, the salt and the parameters. -/
  deriveKey : Bytes → Bytes → KdfParams → Except VaultError Key
  keyBytes : Key → Bytes
  keyOfBytes : Bytes → Option Key
  sha256Hex : String → String
  paramsToString : KdfParams → Except VaultError String
  paramsFromStr : String → Except VaultError KdfParams
  toUppercase : Char → List Char

/-- The cipher gives back what was encrypted, and only under the same key with the same additional
data; one key comes from one password. -/
structure Crypto.Ideal {Key : Type} (c : Crypto Key) : Prop where
  decrypt_encrypt : ∀ key nonce plaintext aad blob, c.encrypt key nonce plaintext aad = .ok blob →
    c.decrypt key blob aad = .ok plaintext
  encrypted_with : ∀ key nonce plaintext aad blob key' aad' plaintext',
    c.encrypt key nonce plaintext aad = .ok blob → c.decrypt key' blob aad' = .ok plaintext' →
      key' = key ∧ aad' = aad
  deriveKey_injective : ∀ password password' salt params key,
    c.deriveKey password salt params = .ok key → c.deriveKey password' salt params = .ok key →
      password = password'
  keyOfBytes_keyBytes : ∀ key, c.keyOfBytes (c.keyBytes key) = some key
  params_roundTrip : ∀ params text, c.paramsToString params = .ok text →
    c.paramsFromStr text = .ok params

variable {Key : Type} (c : Crypto Key)

/-! ## Texts of ciphertexts -/

def toBase64 (bytes : Bytes) : String := String.ofList (Base64.encode bytes)

def fromBase64 (text : String) : Except VaultError Bytes :=
  match Base64.decode text.toList with
  | some bytes => .ok bytes
  | none => .error .base64

theorem fromBase64_toBase64 (bytes : Bytes) : fromBase64 (toBase64 bytes) = .ok bytes := by
  unfold fromBase64 toBase64
  rw [String.toList_ofList, Base64.decode_encode]

def hexDigit (v : ℕ) : Char := "0123456789abcdef".toList.getD v '0'

def hexByte (byte : UInt8) : String :=
  String.ofList ['0', 'x', hexDigit (byte.toNat / 16), hexDigit (byte.toNat % 16)]

/-! ## The data key under another key -/

def wrapAad : Bytes := utf8Bytes "dek-wrap"

def wrapDek (kek : Key) (nonce : Bytes) (dek : Key) : Except VaultError String := do
  let encrypted ← c.encrypt kek nonce (c.keyBytes dek) wrapAad
  return toBase64 (c.versionTag :: encrypted)

def unwrapDek (kek : Key) (wrapped : String) : Except VaultError Key := do
  match ← fromBase64 wrapped with
  | [] => throw (.cipherError "empty wrapped DEK")
  | version :: ciphertext =>
    if version ≠ c.versionTag then
      throw (.cipherError ("unsupported cipher version: " ++ hexByte version ++ ", expected " ++
        hexByte c.versionTag))
    let plaintext ← c.decrypt kek ciphertext wrapAad
    match c.keyOfBytes plaintext with
    | some dek => return dek
    | none =>
      throw (.cipherError ("unwrapped DEK has wrong length: " ++ toString plaintext.length ++
        " (expected 32)"))

/-! ## Recovery -/

/-- The characters of recovery keys. -/
def charset : List Char := "ABCDEFGHJKLMNPQRSTUVWXYZ23456789".toList

def charsetAt (v : ℕ) : Char := charset.getD (v % 32) 'A'

/-- The phrase of a recovery key: two characters for each byte, in groups of four. -/
def recoveryPhrase (entropy : Bytes) : String :=
  String.ofList (['-'].intercalate ((entropy.flatMap fun byte =>
    [charsetAt (byte.toNat / 16), charsetAt (byte.toNat % 16)]).toChunks 4))

def recoverySalt : Bytes := utf8Bytes "chelix-vault-recovery-key-salt!!"

/-- A phrase without its dashes, in upper case. -/
def normalizePhrase (phrase : String) : String :=
  String.ofList ((phrase.toList.filter fun char => char ≠ '-').flatMap c.toUppercase)

def deriveRecoveryKek (phrase : String) : Except VaultError Key :=
  c.deriveKey (utf8Bytes (normalizePhrase c phrase)) recoverySalt .recovery

def wrapWithRecovery (nonce : Bytes) (dek : Key) (phrase : String) :
    Except VaultError (String × String) := do
  let recoveryKek ← deriveRecoveryKek c phrase
  let wrapped ← wrapDek c recoveryKek nonce dek
  return (wrapped, c.sha256Hex phrase)

def unwrapWithRecovery (wrapped phrase : String) : Except VaultError Key := do
  let recoveryKek ← deriveRecoveryKek c phrase
  unwrapDek c recoveryKek wrapped

/-! ## The stored row -/

/-- Row from the `vault_metadata` table. -/
structure VaultRow where
  kdfSalt : String
  kdfParams : String
  wrappedDek : String
  recoveryWrappedDek : Option String
  recoveryKeyHash : Option String
  deriving DecidableEq

def decodeSalt (text : String) : Except VaultError Bytes := fromBase64 text

/-- The data key of a row for a password. -/
def passwordKey (row : VaultRow) (password : String) : Except VaultError Key := do
  let salt ← decodeSalt row.kdfSalt
  let params ← c.paramsFromStr row.kdfParams
  let kek ← c.deriveKey (utf8Bytes password) salt params
  (unwrapDek c kek row.wrappedDek).mapError fun _ => .badCredential

/-- The data key of a row for a recovery phrase. -/
def recoveryKey (row : VaultRow) (phrase : String) : Except VaultError Key :=
  match row.recoveryWrappedDek with
  | none => .error (.cipherError "no recovery key configured")
  | some wrapped =>
    (unwrapWithRecovery c wrapped phrase).mapError fun _ => .badCredential

/-- What initializing draws at random. -/
structure InitializeRandom (Key : Type) where
  dek : Key
  salt : Bytes
  nonce : Bytes
  entropy : Bytes
  recoveryNonce : Bytes
  deriving DecidableEq

/-- What wrapping the data key again draws at random. -/
structure RewrapRandom where
  salt : Bytes
  nonce : Bytes
  deriving DecidableEq

def initialRow (password : String) (random : InitializeRandom Key) :
    Except VaultError VaultRow := do
  let saltText := toBase64 random.salt
  let salt ← decodeSalt saltText
  let kek ← c.deriveKey (utf8Bytes password) salt .default
  let wrappedDek ← wrapDek c kek random.nonce random.dek
  let (recoveryWrapped, recoveryHash) ←
    wrapWithRecovery c random.recoveryNonce random.dek (recoveryPhrase random.entropy)
  let paramsText ← c.paramsToString .default
  return {
    kdfSalt := saltText, kdfParams := paramsText, wrappedDek,
    recoveryWrappedDek := some recoveryWrapped, recoveryKeyHash := some recoveryHash }

/-- A row with the data key wrapped again, for a new password. -/
def rewrappedRow (row : VaultRow) (params : KdfParams) (new : String) (dek : Key)
    (random : RewrapRandom) : Except VaultError VaultRow := do
  let newSaltText := toBase64 random.salt
  let newSalt ← decodeSalt newSaltText
  let newKek ← c.deriveKey (utf8Bytes new) newSalt params
  let newWrapped ← wrapDek c newKek random.nonce dek
  let paramsText ← c.paramsToString params
  return { row with kdfSalt := newSaltText, kdfParams := paramsText, wrappedDek := newWrapped }

end Chelix.Secrets
