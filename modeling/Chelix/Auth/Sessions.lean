import Chelix.Library.Run
import Mathlib.Algebra.Order.Ring.Nat

/-!
# Login sessions

The credential store keeps the login sessions in a table.  A login is two calls, a check of the
password and `create_session`; a call is several SQL statements, and the statements of different
clients interleave.  Times are seconds.
-/

namespace Chelix.Auth

open Chelix.Library

/-- A row of `auth_sessions`. -/
structure AuthSession where
  token : String
  createdAt : ℕ
  expiresAt : ℕ
  deriving DecidableEq

/-- `MAX_SESSIONS`. -/
def maxSessions : ℕ := 10

def sessionLifetime : ℕ := 30 * 24 * 60 * 60

variable {Hash : Type}

/-- The row of `auth_password` and the rows of `auth_sessions`, in the order of insertion. -/
structure AuthTables (Hash : Type) where
  passwordHash : Option Hash
  sessions : List AuthSession

namespace AuthTables

/-! ## Statements -/

def deleteExpired (t : AuthTables Hash) (now : ℕ) : AuthTables Hash :=
  { t with sessions := t.sessions.filter fun session => now < session.expiresAt }

/-- The sessions with the lowest creation times are deleted, older rows first among equals. -/
def deleteOldest (t : AuthTables Hash) (limit : ℕ) : AuthTables Hash :=
  let oldest := (sortByKey AuthSession.createdAt t.sessions).take limit
  { t with sessions := t.sessions.filter fun session => session.token ∉ oldest.map (·.token) }

def insertSession (t : AuthTables Hash) (token : String) (now : ℕ) : AuthTables Hash :=
  { t with sessions := t.sessions ++ [⟨token, now, now + sessionLifetime⟩] }

def deleteSession (t : AuthTables Hash) (token : String) : AuthTables Hash :=
  { t with sessions := t.sessions.filter fun session => session.token ≠ token }

def deleteSessions (t : AuthTables Hash) : AuthTables Hash := { t with sessions := [] }

/-- An update of the password, where there is one. -/
def updatePassword (t : AuthTables Hash) (hash : Hash) : AuthTables Hash :=
  { t with passwordHash := t.passwordHash.map fun _ => hash }

def deletePassword (t : AuthTables Hash) : AuthTables Hash := { t with passwordHash := none }

def validateSession (t : AuthTables Hash) (token : String) (now : ℕ) : Bool :=
  t.sessions.any fun session => session.token = token && now < session.expiresAt

/-- The check of a password against a hash is a parameter; without a stored password it fails. -/
def verifyPassword (verify : String → Hash → Bool) (t : AuthTables Hash) (password : String) :
    Bool :=
  t.passwordHash.any (verify password)

end AuthTables

/-! ## Clients -/

/-- What a client does next. -/
inductive Phase where
  | idle
  /-- The password of a login was right when it was checked; `create_session` begins. -/
  | cleaning
  | counting
  /-- So many sessions were counted, too many for one more. -/
  | evicting (count : ℕ)
  | inserting
  /-- The current password was right; it is replaced. -/
  | updating
  /-- It was replaced; the sessions are deleted. -/
  | purging
  /-- A reset has deleted the password. -/
  | resetting
  deriving DecidableEq

/-- Between the count of the sessions and the insertion of one more. -/
def Phase.counted : Phase → Bool
  | .evicting _ => true
  | .inserting => true
  | _ => false

/-- The store while any number of clients use it.  `passwords` numbers the passwords that were
set so far, and `used` is the number of the password that the client's last check, or change, was
about. -/
structure SessionRun (Hash : Type) where
  tables : AuthTables Hash
  now : ℕ
  phase : ℕ → Phase
  used : ℕ → ℕ
  passwords : ℕ
  /-- The tokens that were issued, and the password whose check each of them rests on. -/
  issued : List String
  issuedFor : String → ℕ
  /-- The passwords that were set by changes that have returned. -/
  changed : List ℕ
  /-- A call of `create_session` has returned. -/
  created : Bool

/-- The tables may hold anything at the start; no client is in the middle of a call. -/
def SessionRun.start (tables : AuthTables Hash) (now : ℕ) : SessionRun Hash where
  tables := tables
  now := now
  phase := fun _ => .idle
  used := fun _ => 0
  passwords := 0
  issued := tables.sessions.map AuthSession.token
  issuedFor := fun _ => 0
  changed := []
  created := false

namespace SessionRun

def setPhase (s : SessionRun Hash) (client : ℕ) (phase : Phase) : SessionRun Hash :=
  { s with phase := Function.update s.phase client phase }

def setTables (s : SessionRun Hash) (tables : AuthTables Hash) : SessionRun Hash :=
  { s with tables }

def setUsed (s : SessionRun Hash) (client number : ℕ) : SessionRun Hash :=
  { s with used := Function.update s.used client number }

/-- The token is issued on the check that the client made. -/
def issue (s : SessionRun Hash) (client : ℕ) (token : String) : SessionRun Hash :=
  { s with
    tables := s.tables.insertSession token s.now
    issued := token :: s.issued
    issuedFor := Function.update s.issuedFor token (s.used client)
    created := true }

def valid (s : SessionRun Hash) (token : String) : Bool := s.tables.validateSession token s.now

end SessionRun

/-! ## Steps -/

inductive SessionEvent (Hash : Type) where
  | tick (now : ℕ)
  | checkLogin (client : ℕ) (password : String)
  | clean (client : ℕ)
  | count (client : ℕ)
  | evict (client : ℕ)
  | insert (client : ℕ) (token : String)
  | validate (token : String) (result : Bool)
  | deleteSession (token : String)
  | cleanupExpired
  | checkChange (client : ℕ) (current : String)
  | updatePassword (client : ℕ) (hash : Hash)
  | purge (client : ℕ)
  /-- A change of the password together with the vault, in one transaction. -/
  | rotate (client : ℕ) (current : String) (hash : Hash)
  | resetPassword (client : ℕ)
  | resetSessions (client : ℕ)
  /-- A call ends with an error, or is dropped. -/
  | abort (client : ℕ)

variable (verify : String → Hash → Bool)

/-- One statement.  Tokens are random, so a new one is not one that was issued before. -/
inductive SessionStep (s : SessionRun Hash) : SessionEvent Hash → SessionRun Hash → Prop
  | tick {now : ℕ} (h : s.now ≤ now) : SessionStep s (.tick now) { s with now }
  | checkLogin {client : ℕ} {password : String} (hphase : s.phase client = .idle)
      (hverify : s.tables.verifyPassword verify password = true) :
      SessionStep s (.checkLogin client password)
        ((s.setUsed client s.passwords).setPhase client .cleaning)
  | clean {client : ℕ} (hphase : s.phase client = .cleaning) :
      SessionStep s (.clean client)
        ((s.setTables (s.tables.deleteExpired s.now)).setPhase client .counting)
  | count {client : ℕ} (hphase : s.phase client = .counting) :
      SessionStep s (.count client)
        (s.setPhase client
          (if maxSessions ≤ s.tables.sessions.length then .evicting s.tables.sessions.length
          else .inserting))
  | evict {client count : ℕ} (hphase : s.phase client = .evicting count) :
      SessionStep s (.evict client)
        ((s.setTables (s.tables.deleteOldest (count - maxSessions + 1))).setPhase client .inserting)
  | insert {client : ℕ} {token : String} (hphase : s.phase client = .inserting)
      (hnew : token ∉ s.issued) :
      SessionStep s (.insert client token) ((s.issue client token).setPhase client .idle)
  | validate {token : String} : SessionStep s (.validate token (s.valid token)) s
  | deleteSession {token : String} :
      SessionStep s (.deleteSession token) (s.setTables (s.tables.deleteSession token))
  | cleanupExpired : SessionStep s .cleanupExpired (s.setTables (s.tables.deleteExpired s.now))
  | checkChange {client : ℕ} {current : String} (hphase : s.phase client = .idle)
      (hverify : s.tables.verifyPassword verify current = true) :
      SessionStep s (.checkChange client current) (s.setPhase client .updating)
  | updatePassword {client : ℕ} {hash : Hash} (hphase : s.phase client = .updating) :
      SessionStep s (.updatePassword client hash)
        (({ s with passwords := s.passwords + 1 }.setTables (s.tables.updatePassword hash)).setUsed
          client (s.passwords + 1) |>.setPhase client .purging)
  | purge {client : ℕ} (hphase : s.phase client = .purging) :
      SessionStep s (.purge client)
        ({ s with changed := s.used client :: s.changed }.setTables s.tables.deleteSessions
          |>.setPhase client .idle)
  | rotate {client : ℕ} {current : String} {hash : Hash} (hphase : s.phase client = .idle)
      (hverify : s.tables.verifyPassword verify current = true) :
      SessionStep s (.rotate client current hash)
        ({ s with
            passwords := s.passwords + 1
            changed := (s.passwords + 1) :: s.changed }.setTables
          (s.tables.updatePassword hash).deleteSessions)
  | resetPassword {client : ℕ} (hphase : s.phase client = .idle) :
      SessionStep s (.resetPassword client)
        ((s.setTables s.tables.deletePassword).setPhase client .resetting)
  | resetSessions {client : ℕ} (hphase : s.phase client = .resetting) :
      SessionStep s (.resetSessions client)
        ((s.setTables s.tables.deleteSessions).setPhase client .idle)
  | abort {client : ℕ} : SessionStep s (.abort client) (s.setPhase client .idle)

end Chelix.Auth
