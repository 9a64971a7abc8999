import Chelix.Secrets.Transactions
import Mathlib.Data.List.Induction

/-!
# What the vault keeps
-/

namespace Chelix.Secrets

open Function

open Chelix.Library CriticalSection List Vault

variable {Key : Type} {c : Crypto Key}

/-! ## The book -/

/-- A string that was encrypted. -/
structure Encrypted where
  plaintext : String
  aad : String
  text : String

structure Book (Key : Type) where
  /-- The credentials of the last commit. -/
  committed : Option (Credentials Key)
  /-- The credentials that a transaction stored and did not commit yet. -/
  pending : Connection → Option (Credentials Key)
  encrypted : List Encrypted

namespace Book

variable (b : Book Key)

def empty (Key : Type) : Book Key where
  committed := none
  pending := fun _ => none
  encrypted := []

/-- The credentials that a transaction finds. -/
def found (tx : Connection) : Option (Credentials Key) := (b.pending tx).or b.committed

def setPending (tx : Connection) (credentials : Option (Credentials Key)) : Book Key :=
  { b with pending := Function.update b.pending tx credentials }

def commit (tx : Connection) : Book Key :=
  { b with
    committed := b.found tx
    pending := Function.update b.pending tx none }

def store (tx : Connection) (credentials : Credentials Key) : Book Key :=
  b.setPending tx (some credentials)

theorem committed_commit_store (tx : Connection) (credentials : Credentials Key) :
    ((b.store tx credentials).commit tx).committed = some credentials := by
  show (Function.update b.pending tx (some credentials) tx).or b.committed = _
  rw [update_self]
  rfl

/-- Another password for the credentials that a transaction finds. -/
def changePassword (tx : Connection) (new : String) : Book Key :=
  b.setPending tx ((b.found tx).map fun credentials => { credentials with password := new })

/-- What a call that succeeds writes into the book. -/
def recordOk (answer : String) : Call Key → Book Key
  | .initializeVault password random _ =>
    (b.store .own ⟨password, answer, random.dek⟩).commit .own
  | .changePassword _ new _ _ => (b.changePassword .own new).commit .own
  | .rewrapUnsealed new _ _ => (b.changePassword .own new).commit .own
  | .initializeIn n password random _ => b.store (.caller n) ⟨password, answer, random.dek⟩
  | .changePasswordIn n _ new _ _ => b.changePassword (.caller n) new
  | .rewrapUnsealedIn n new _ _ => b.changePassword (.caller n) new
  | .commit n _ => b.commit (.caller n)
  | .rollback n => b.setPending (.caller n) none
  | .encryptString plaintext aad _ =>
    { b with encrypted := ⟨plaintext, aad, answer⟩ :: b.encrypted }
  | _ => b

/-- What a call that fails writes into the book: a transaction whose commit fails is rolled
back. -/
def recordError : Call Key → Book Key
  | .commit n _ => b.setPending (.caller n) none
  | _ => b

def record (call : Call Key) : Except VaultError String → Book Key
  | .ok answer => b.recordOk answer call
  | .error _ => b.recordError call

end Book

/-- The vault and the book after some calls. -/
def play (c : Crypto Key) (calls : List (Call Key)) : Vault Key × Book Key :=
  calls.foldl (fun (s, b) call =>
    ((call.run c).stateAfter s, b.record call ((call.run c).result s)))
    (.start Key, .empty Key)

/-! ## The invariant -/

/-- A row that may be there, and the credentials that it is for. -/
def Stores (c : Crypto Key) : Option VaultRow → Option (Credentials Key) → Prop
  | none, none => True
  | some row, some credentials => RowHolds c row credentials
  | _, _ => False

variable {credentials : Option (Credentials Key)}

theorem Stores.some_left {row : VaultRow} (h : Stores c (some row) credentials) :
    ∃ credentials', credentials = some credentials' ∧ RowHolds c row credentials' := by
  cases credentials with
  | none => exact h.elim
  | some credentials' => exact ⟨credentials', rfl, h⟩

theorem Stores.some_right {row : Option VaultRow} {credentials : Credentials Key}
    (h : Stores c row (some credentials)) : ∃ row', row = some row' ∧ RowHolds c row' credentials := by
  cases row with
  | none => exact h.elim
  | some row' => exact ⟨row', rfl, h⟩

theorem Stores.none_left (h : Stores c none credentials) :
    credentials = none := by
  cases credentials with
  | none => rfl
  | some credentials' => exact h.elim

/-- A transaction that wrote holds the lock, and its row is for the credentials that wait; they
have the data key and the phrase of those in force. -/
structure Writing (c : Crypto Key) (s : Vault Key) (b : Book Key) (t : Tx)
    (pending : Option (Credentials Key)) : Prop where
  locked : s.locked = true
  row : ∃ base row credentials, t.view = some (base, some row) ∧ pending = some credentials ∧
    RowHolds c row credentials ∧ ∀ credentials₀, b.committed = some credentials₀ →
      credentials.dek = credentials₀.dek ∧ credentials.phrase = credentials₀.phrase

/-- A transaction that did not write sees what is committed, unless it reads an older state. -/
structure Reading (s : Vault Key) (t : Tx) (pending : Option (Credentials Key)) : Prop where
  pending : pending = none
  view : ∀ base row, t.view = some (base, row) →
    base ≤ s.commits ∧ (base = s.commits → row = s.metadata)

/-- What is known about a transaction. -/
def TxHolds (c : Crypto Key) (s : Vault Key) (b : Book Key) (t : Tx)
    (pending : Option (Credentials Key)) : Prop :=
  if t.wrote = true then Writing c s b t pending else Reading s t pending

theorem TxHolds.unread (s : Vault Key) (b : Book Key) : TxHolds c s b .unread none :=
  ⟨rfl, fun _ _ h => (nomatch h)⟩

theorem TxHolds.frame {s s' : Vault Key} {b b' : Book Key} {t : Tx}
    {pending : Option (Credentials Key)} (h : TxHolds c s b t pending)
    (hlocked : s'.locked = s.locked) (hcommits : s'.commits = s.commits)
    (hmetadata : s'.metadata = s.metadata) (hcommitted : b'.committed = b.committed) :
    TxHolds c s' b' t pending := by
  unfold TxHolds at h ⊢
  split_ifs at h ⊢ with hwrote
  · obtain ⟨hlocked', base, row, credentials, hview, hpending, hrow, hsame⟩ := h
    refine ⟨hlocked.trans hlocked', base, row, credentials, hview, hpending, hrow, ?_⟩
    rw [hcommitted]
    exact hsame
  · refine ⟨h.pending, ?_⟩
    rw [hcommits, hmetadata]
    exact h.view

structure Custody (c : Crypto Key) (s : Vault Key) (b : Book Key) : Prop where
  stored : Stores c s.metadata b.committed
  memory : ∀ dek, s.dek = some dek → ∃ credentials, b.committed = some credentials ∧
    credentials.dek = dek
  txs : ∀ tx, TxHolds c s b (s.txs tx) (b.pending tx)
  writer : ∀ tx tx', (s.txs tx).wrote = true → (s.txs tx').wrote = true → tx = tx'
  encrypted : ∀ e ∈ b.encrypted, ∃ credentials nonce, b.committed = some credentials ∧
    encryptUnder c credentials.dek nonce e.plaintext e.aad = .ok e.text

theorem custody_start : Custody c (.start Key) (.empty Key) where
  stored := trivial
  memory _ h := nomatch h
  txs _ := .unread _ _
  writer _ _ h := nomatch h
  encrypted _ h := absurd h not_mem_nil

variable {password : String}

namespace Custody

variable {s : Vault Key} {b : Book Key} (tx : Connection)

theorem writing (h : Custody c s b) {tx : Connection} (hwrote : (s.txs tx).wrote = true) :
    Writing c s b (s.txs tx) (b.pending tx) := by
  have htx := h.txs tx
  rwa [TxHolds, if_pos hwrote] at htx

theorem reading (h : Custody c s b) {tx : Connection} (hwrote : (s.txs tx).wrote = false) :
    Reading s (s.txs tx) (b.pending tx) := by
  have htx := h.txs tx
  rwa [TxHolds, if_neg (by rw [hwrote]; decide)] at htx

theorem viewOf_eq (h : Custody c s b) (hmay : s.mayWrite tx = true)
    (hwrote : (s.txs tx).wrote = false) : (s.viewOf tx).2 = s.metadata := by
  unfold mayWrite at hmay
  rw [hwrote, Bool.false_or, Bool.and_eq_true] at hmay
  unfold viewOf at hmay ⊢
  cases hview : (s.txs tx).view with
  | none => rfl
  | some view =>
    rw [hview] at hmay
    exact ((h.reading hwrote).view _ _ hview).2 (beq_iff_eq.mp hmay.2)

theorem view (h : Custody c s b) (hmay : s.mayWrite tx = true) :
    Stores c (s.viewOf tx).2 (b.found tx) := by
  unfold Book.found
  cases hwrote : (s.txs tx).wrote with
  | true =>
    obtain ⟨base, row, credentials, hview, hpending, hrow, -⟩ := (h.writing hwrote).row
    rw [hpending, viewOf, hview]
    exact hrow
  | false =>
    rw [h.viewOf_eq tx hmay hwrote, (h.reading hwrote).pending]
    exact h.stored

theorem others (h : Custody c s b) (hmay : s.mayWrite tx = true) {tx' : Connection}
    (hne : tx' ≠ tx) : (s.txs tx').wrote = false := by
  by_contra hwrote
  rw [Bool.not_eq_false] at hwrote
  unfold mayWrite at hmay
  cases htx : (s.txs tx).wrote with
  | true => exact hne (h.writer tx' tx hwrote htx)
  | false =>
    rw [htx, Bool.false_or, Bool.and_eq_true, (h.writing hwrote).locked] at hmay
    exact absurd hmay.1 (by decide)

theorem forall_update {P : Tx → Option (Credentials Key) → Prop} {txs : Connection → Tx}
    {pending : Connection → Option (Credentials Key)} {t : Tx}
    (htx : P t credentials)
    (hothers : ∀ tx', tx' ≠ tx → P (txs tx') (pending tx')) (tx' : Connection) :
    P (Function.update txs tx t tx') (Function.update pending tx credentials tx') := by
  by_cases heq : tx' = tx
  · subst heq
    rw [update_self, update_self]
    exact htx
  · rw [update_of_ne heq, update_of_ne heq]
    exact hothers tx' heq

theorem writer_update {txs : Connection → Tx} {t : Tx}
    (htx : t.wrote = true → ∀ tx', tx' ≠ tx → (txs tx').wrote = false)
    (hothers : ∀ tx' tx'', (txs tx').wrote = true → (txs tx'').wrote = true → tx' = tx'')
    (tx' tx'' : Connection) (h' : (Function.update txs tx t tx').wrote = true)
    (h'' : (Function.update txs tx t tx'').wrote = true) : tx' = tx'' := by
  by_cases heq' : tx' = tx
  · subst heq'
    by_contra hne
    rw [update_self] at h'
    rw [update_of_ne (Ne.symm hne), htx h' tx'' (Ne.symm hne)] at h''
    cases h''
  · rw [update_of_ne heq'] at h'
    by_cases heq'' : tx'' = tx
    · subst heq''
      rw [update_self] at h''
      rw [htx h'' tx' heq'] at h'
      cases h'
    · rw [update_of_ne heq''] at h''
      exact hothers tx' tx'' h' h''

theorem read (h : Custody c s b) : Custody c (s.read tx) b where
  __ := h
  txs := by
    have hupdate : ∀ tx', TxHolds c (s.read tx) b
        (Function.update s.txs tx { s.txs tx with view := some (s.viewOf tx) } tx')
        (Function.update b.pending tx (b.pending tx) tx') := by
      refine forall_update tx ?_ fun tx' _ => (h.txs tx').frame rfl rfl rfl rfl
      cases hwrote : (s.txs tx).wrote with
      | true =>
        obtain ⟨hlocked, base, row, credentials, hview, hrest⟩ := h.writing hwrote
        rw [TxHolds, if_pos hwrote]
        refine ⟨hlocked, base, row, credentials, ?_, hrest⟩
        unfold viewOf
        rw [hview]
        rfl
      | false =>
        obtain ⟨hpending, hread⟩ := h.reading hwrote
        rw [TxHolds, if_neg (by dsimp only; rw [hwrote]; decide)]
        refine ⟨hpending, fun base row hview => ?_⟩
        have hviewOf : s.viewOf tx = (base, row) := Option.some.inj hview
        unfold viewOf at hviewOf
        cases hold : (s.txs tx).view with
        | none =>
          rw [hold] at hviewOf
          cases hviewOf
          exact ⟨le_refl _, fun _ => rfl⟩
        | some view =>
          rw [hold] at hviewOf
          cases hviewOf
          exact hread _ _ hold
    rwa [update_eq_self] at hupdate
  writer := writer_update tx (fun hwrote tx' hne => by
    by_contra hother
    rw [Bool.not_eq_false] at hother
    exact hne (h.writer tx' tx hother hwrote)) h.writer

theorem write (h : Custody c s b) (hmay : s.mayWrite tx = true) {row : VaultRow}
    {credentials : Credentials Key} (hrow : RowHolds c row credentials)
    (hsame : ∀ credentials₀, b.committed = some credentials₀ →
      credentials.dek = credentials₀.dek ∧ credentials.phrase = credentials₀.phrase) :
    Custody c (s.write tx row) (b.store tx credentials) where
  __ := h
  txs := by
    refine forall_update tx ⟨rfl, _, row, credentials, rfl, rfl, hrow, hsame⟩ fun tx' hne => ?_
    have hnot := h.others tx hmay hne
    rw [TxHolds, if_neg (by rw [hnot]; decide)]
    exact ⟨(h.reading hnot).pending, (h.reading hnot).view⟩
  writer := writer_update tx (fun _ tx' hne => h.others tx hmay hne) h.writer

theorem rollback (h : Custody c s b) : Custody c (s.rollback tx) (b.setPending tx none) where
  __ := h
  txs := by
    refine forall_update tx (.unread _ _) fun tx' hne => ?_
    cases hwrote : (s.txs tx').wrote with
    | true =>
      obtain ⟨hlocked, hrow⟩ := h.writing hwrote
      rw [TxHolds, if_pos hwrote]
      refine ⟨?_, hrow⟩
      show (s.locked && !(s.txs tx).wrote) = true
      cases htx : (s.txs tx).wrote with
      | true => exact absurd (h.writer tx' tx hwrote htx) hne
      | false =>
        rw [hlocked]
        rfl
    | false =>
      rw [TxHolds, if_neg (by rw [hwrote]; decide)]
      exact ⟨(h.reading hwrote).pending, (h.reading hwrote).view⟩
  writer := writer_update tx (fun h => (nomatch h)) h.writer

theorem commit (h : Custody c s b) : Custody c (s.commit tx) (b.commit tx) := by
  unfold Vault.commit
  cases hwrote : (s.txs tx).wrote with
  | false =>
    rw [if_neg (by decide)]
    have hcommitted : (b.commit tx).committed = b.committed := by
      show (b.pending tx).or b.committed = _
      rw [(h.reading hwrote).pending]
      rfl
    constructor
    · rw [hcommitted]
      exact h.stored
    · rw [hcommitted]
      exact h.memory
    · exact forall_update tx (.unread _ _) fun tx' _ =>
        (h.txs tx').frame rfl rfl rfl hcommitted
    · exact writer_update tx (fun h => (nomatch h)) h.writer
    · rw [hcommitted]
      exact h.encrypted
  | true =>
    rw [if_pos rfl]
    obtain ⟨-, base, row, credentials, hview, hpending, hrow, hsame⟩ := h.writing hwrote
    have hcommitted : (b.commit tx).committed = some credentials := by
      show (b.pending tx).or b.committed = _
      rw [hpending]
      rfl
    have hrow' : (s.viewOf tx).2 = some row := by
      unfold Vault.viewOf
      rw [hview]
      rfl
    constructor
    · show Stores c (s.viewOf tx).2 _
      rw [hcommitted, hrow']
      exact hrow
    · intro dek hdek
      obtain ⟨credentials₀, hcommitted₀, rfl⟩ := h.memory dek hdek
      exact ⟨credentials, hcommitted, (hsame _ hcommitted₀).1⟩
    · refine forall_update tx (.unread _ _) fun tx' hne => ?_
      have hnot : (s.txs tx').wrote = false := by
        by_contra hother
        rw [Bool.not_eq_false] at hother
        exact hne (h.writer tx' tx hother hwrote)
      rw [TxHolds, if_neg (by rw [hnot]; decide)]
      refine ⟨(h.reading hnot).pending, fun base' row' hview' => ?_⟩
      have hle := ((h.reading hnot).view _ _ hview').1
      show base' ≤ s.commits + 1 ∧ (base' = s.commits + 1 → _)
      exact ⟨by omega, fun heq => absurd heq (by omega)⟩
    · exact writer_update tx (fun h => (nomatch h)) h.writer
    · intro e he
      obtain ⟨credentials₀, nonce, hcommitted₀, hencrypt⟩ := h.encrypted e he
      rw [← (hsame _ hcommitted₀).1] at hencrypt
      exact ⟨credentials, nonce, hcommitted, hencrypt⟩

/-! ## What the operations store -/

/-- The credentials that a transaction finds have the data key and the phrase of those in
force. -/
theorem found_same (h : Custody c s b) {credentials credentials₀ : Credentials Key}
    (hfound : b.found tx = some credentials) (hcommitted : b.committed = some credentials₀) :
    credentials.dek = credentials₀.dek ∧ credentials.phrase = credentials₀.phrase := by
  unfold Book.found at hfound
  cases hwrote : (s.txs tx).wrote with
  | true =>
    obtain ⟨-, base, row, credentials', hview, hpending, hrow, hsame⟩ := h.writing hwrote
    rw [hpending] at hfound
    cases hfound
    exact hsame _ hcommitted
  | false =>
    rw [(h.reading hwrote).pending, hcommitted] at hfound
    cases hfound
    exact ⟨rfl, rfl⟩

theorem initialized {random : InitializeRandom Key} (hc : c.Ideal) (h : Custody c s b)
    (hmay : s.mayWrite tx = true)
    {row : VaultRow}
    (hview : (s.viewOf tx).2 = none) (hrow : initialRow c password random = .ok row) :
    Custody c (s.write tx row)
      (b.store tx ⟨password, recoveryPhrase random.entropy, random.dek⟩) := by
  refine h.write tx hmay (initialRow_holds hc hrow) fun credentials₀ hcommitted => ?_
  have hfound := h.view tx hmay
  rw [hview] at hfound
  have hnone := hfound.none_left
  unfold Book.found at hnone
  rw [hcommitted] at hnone
  cases hpending : b.pending tx <;> rw [hpending] at hnone <;> cases hnone

theorem rewrapped (hc : c.Ideal) (h : Custody c s b) (hmay : s.mayWrite tx = true)
    {row₀ row : VaultRow} {params : KdfParams} {new : String} {dek : Key} {random : RewrapRandom}
    (hview : (s.viewOf tx).2 = some row₀) (hdek : s.dek = some dek)
    (hrow : rewrappedRow c row₀ params new dek random = .ok row) :
    Custody c (s.write tx row) (b.changePassword tx new) := by
  have hfound := h.view tx hmay
  rw [hview] at hfound
  obtain ⟨credentials, hfound, hholds⟩ := hfound.some_left
  obtain ⟨credentials₀, hcommitted, rfl⟩ := h.memory dek hdek
  obtain ⟨hsame, hphrase⟩ := h.found_same tx hfound hcommitted
  rw [← hsame] at hrow
  unfold Book.changePassword
  rw [hfound]
  refine h.write tx hmay (rewrappedRow_holds hc hholds hrow) fun credentials₁ hcommitted₁ => ?_
  rw [hcommitted] at hcommitted₁
  cases hcommitted₁
  exact ⟨hsame, hphrase⟩

theorem setDek (h : Custody c s b) {dek : Option Key}
    (hdek : ∀ key, dek = some key → ∃ credentials, b.committed = some credentials ∧
      credentials.dek = key) : Custody c { s with dek } b where
  __ := h
  memory := hdek
  txs tx := (h.txs tx).frame rfl rfl rfl rfl

end Custody

/-! ## Between two calls -/

theorem own_ne_caller (n : ℕ) : Connection.own ≠ .caller n := fun h => by cases h

/-- The invariant between two calls: no operation has its own transaction open. -/
structure Kept (c : Crypto Key) (s : Vault Key) (b : Book Key) : Prop extends Custody c s b where
  own : s.txs .own = .unread

theorem inOwnTransaction_ok_iff {α : Type} {faults : Faults} {x : Connection → VaultM Key α}
    {s s' : Vault Key} {a : α} :
    inOwnTransaction faults x s = .ok a s' ↔ faults .begin = none ∧ faults .commit = none ∧
      ∃ s₁, x .own s = .ok a s₁ ∧ s' = s₁.commit .own := by
  have hbind : ∀ a s₁, (do execute faults .begin; x .own : VaultM Key α) s = .ok a s₁ ↔
      faults .begin = none ∧ x .own s = .ok a s₁ := by
    intro a s₁
    rw [bind_ok_iff]
    constructor
    · rintro ⟨_, s₂, hexecute, h⟩
      obtain ⟨hfault, rfl⟩ := execute_ok_iff.mp hexecute
      exact ⟨hfault, h⟩
    · rintro ⟨hfault, h⟩
      exact ⟨(), s, execute_ok_iff.mpr ⟨hfault, rfl⟩, h⟩
  unfold inOwnTransaction commit
  cases hx : (do execute faults .begin; x .own : VaultM Key α) s with
  | error e s₁ =>
    constructor
    · intro h
      cases h
    · rintro ⟨hbegin, -, s₁, h, -⟩
      rw [(hbind a s₁).mpr ⟨hbegin, h⟩] at hx
      cases hx
  | ok a' s₁ =>
    obtain ⟨hbegin, hx⟩ := (hbind a' s₁).mp hx
    cases hcommit : faults .commit with
    | some message =>
      constructor
      · intro h
        cases h
      · rintro ⟨-, h, -⟩
        cases h
    | none =>
      constructor
      · intro h
        cases h
        exact ⟨hbegin, rfl, s₁, hx, rfl⟩
      · rintro ⟨-, -, s₂, h, rfl⟩
        rw [hx] at h
        cases h
        rfl

variable {e : VaultError}

theorem inOwnTransaction_error {α : Type} {faults : Faults} {x : Connection → VaultM Key α}
    {s s' : Vault Key} (h : inOwnTransaction faults x s = .error e s') :
    s' = s.rollback .own ∨ (∃ e' s₁, x .own s = .error e' s₁ ∧ s' = s₁.rollback .own) ∨
      ∃ a s₁, x .own s = .ok a s₁ ∧ s' = s₁.rollback .own := by
  unfold inOwnTransaction commit at h
  cases hx : (do execute faults .begin; x .own : VaultM Key α) s with
  | error e' s₁ =>
    rw [hx] at h
    cases h
    rcases bind_error_iff.mp hx with hx | ⟨_, s₂, hexecute, hx⟩
    · rw [← execute_error hx]
      exact .inl rfl
    · obtain ⟨-, rfl⟩ := execute_ok_iff.mp hexecute
      exact .inr (.inl ⟨_, _, hx, rfl⟩)
  | ok a s₁ =>
    rw [hx] at h
    obtain ⟨_, s₂, hexecute, hx⟩ := bind_ok_iff.mp hx
    obtain ⟨-, rfl⟩ := execute_ok_iff.mp hexecute
    cases hcommit : faults .commit with
    | none =>
      dsimp only at h
      rw [hcommit] at h
      cases h
    | some message =>
      dsimp only at h
      rw [hcommit] at h
      cases h
      exact .inr (.inr ⟨_, _, hx, rfl⟩)

namespace Kept

variable {α : Type} {s s' : Vault Key} {b : Book Key} {faults : Faults}
  {Stored : Vault Key → VaultRow → α → Prop}

theorem pending (h : Kept c s b) : b.pending .own = none := by
  refine (h.reading ?_).pending
  rw [h.own]
  rfl

theorem own_ok {x : Connection → VaultM Key α} {a : α} {b' : Book Key}
    (hx : InTransaction faults .own Stored (x .own))
    (hb : ∀ row, s.mayWrite .own = true → Stored s row a → Custody c (s.write .own row) b')
    (hok : inOwnTransaction faults x s = .ok a s') : Kept c s' (b'.commit .own) := by
  obtain ⟨-, -, s₁, hx₁, rfl⟩ := inOwnTransaction_ok_iff.mp hok
  obtain ⟨-, -, hmay, row, hstored, rfl⟩ := (hx.ok_iff s a s₁).mp hx₁
  exact ⟨(hb row hmay hstored).commit .own, commit_txs_self _ _⟩

theorem own_error (h : Kept c s b) {x : Connection → VaultM Key α}
    (hx : InTransaction faults .own Stored (x .own))
    (hb : ∀ row a, s.mayWrite .own = true → Stored s row a → ∃ credentials,
      Custody c (s.write .own row) (b.setPending .own credentials))
    (herror : inOwnTransaction faults x s = .error e s') : Kept c s' b := by
  have hclear : ∀ credentials, (b.setPending .own credentials).setPending .own none = b := by
    intro credentials
    have hself : Function.update b.pending .own none = b.pending := by
      rw [← h.pending, update_eq_self]
    unfold Book.setPending
    dsimp only
    rw [update_idem, hself]
  have hnone : b.setPending .own none = b := by
    have := hclear none
    unfold Book.setPending at this ⊢
    dsimp only at this
    rwa [update_idem] at this
  have hunread : ∀ s₁ : Vault Key, (s₁.rollback .own).txs .own = .unread :=
    fun s₁ => s₁.rollback_txs_self .own
  rcases inOwnTransaction_error herror with rfl | ⟨e', s₁, hfail, rfl⟩ | ⟨a, s₁, hok, rfl⟩
  · exact ⟨hnone ▸ h.rollback .own, hunread _⟩
  · rcases hx.error s e' s₁ hfail with rfl | rfl
    · exact ⟨hnone ▸ h.rollback .own, hunread _⟩
    · exact ⟨hnone ▸ (h.read .own).rollback .own, hunread _⟩
  · obtain ⟨-, -, hmay, row, hstored, rfl⟩ := (hx.ok_iff s a s₁).mp hok
    obtain ⟨credentials, hcustody⟩ := hb row a hmay hstored
    exact ⟨hclear credentials ▸ hcustody.rollback .own, hunread _⟩

theorem caller_ok (h : Kept c s b) {n : ℕ} {x : VaultM Key α} {a : α} {b' : Book Key}
    (hx : InTransaction faults (.caller n) Stored x)
    (hb : ∀ row, s.mayWrite (.caller n) = true → Stored s row a →
      Custody c (s.write (.caller n) row) b')
    (hok : x s = .ok a s') : Kept c s' b' := by
  obtain ⟨-, -, hmay, row, hstored, rfl⟩ := (hx.ok_iff s a s').mp hok
  exact ⟨hb row hmay hstored, (s.write_txs_of_ne _ (own_ne_caller n) row).trans h.own⟩

theorem caller_error (h : Kept c s b) {n : ℕ} {x : VaultM Key α}
    (hx : InTransaction faults (.caller n) Stored x) (herror : x s = .error e s') :
    Kept c s' b := by
  rcases hx.error s e s' herror with rfl | rfl
  · exact h
  · exact ⟨h.read (.caller n), (s.read_txs_of_ne _ (own_ne_caller n)).trans h.own⟩

end Kept

/-! ## The condition -/

/-- The row of a new vault is made, stored and committed. -/
def Initializes (c : Crypto Key) (s : Vault Key) (password : String)
    (random : InitializeRandom Key) (faults : Faults) : Prop :=
  (∀ statement, statement ≠ .reload → faults statement = none) ∧ s.metadata = none ∧
    s.locked = false ∧ ∃ row, initialRow c password random = .ok row

/-- When initializing commits, the row is read again without a fault. -/
def Call.Finishes (c : Crypto Key) (s : Vault Key) : Call Key → Prop
  | .initializeVault password random faults =>
    Initializes c s password random faults → faults .reload = none
  | _ => True

/-- A call that fails leaves what is stored and the data key. -/
def LeavesOnError (c : Crypto Key) (s : Vault Key) (call : Call Key) : Prop :=
  ∀ e s', call.run c s = .error e s' → s'.metadata = s.metadata ∧ s'.dek = s.dek

theorem unsealAt_ok_iff (hc : c.Ideal) {s s' : Vault Key} {b : Book Key} (h : Custody c s b)
    {faults : Faults} {statement : Statement} {u : Unit} :
    unsealAt c faults statement password s = .ok u s' ↔ faults statement = none ∧
      ∃ credentials, b.committed = some credentials ∧ password = credentials.password ∧
        s' = { s with dek := some credentials.dek } := by
  unfold unsealAt loadMetadata
  rw [bind_ok_iff]
  constructor
  · rintro ⟨view, s₁, hload, h'⟩
    obtain ⟨_, s₂, hexecute, hget⟩ := bind_ok_iff.mp hload
    obtain ⟨hfault, rfl⟩ := execute_ok_iff.mp hexecute
    cases hget
    obtain ⟨row, s₁, hrequire, h'⟩ := bind_ok_iff.mp h'
    obtain ⟨hview, rfl⟩ := requireRow_ok_iff.mp hrequire
    obtain ⟨dek, s₁, hlift, h'⟩ := bind_ok_iff.mp h'
    obtain ⟨hdek, rfl⟩ := lift_ok_iff.mp hlift
    have hstored := h.stored
    rw [hview] at hstored
    obtain ⟨credentials, hcommitted, hrow⟩ := hstored.some_left
    obtain ⟨hpassword, rfl⟩ := (passwordKey_ok_iff hc hrow password dek).mp hdek
    exact ⟨hfault, credentials, hcommitted, hpassword, modify_ok_iff.mp h'⟩
  · rintro ⟨hfault, credentials, hcommitted, rfl, rfl⟩
    have hstored := h.stored
    rw [hcommitted] at hstored
    obtain ⟨row, hmetadata, hrow⟩ := hstored.some_right
    refine ⟨s.metadata, s, bind_ok_iff.mpr ⟨(), s, execute_ok_iff.mpr ⟨hfault, rfl⟩, rfl⟩, ?_⟩
    refine bind_ok_iff.mpr ⟨row, s, requireRow_ok_iff.mpr ⟨hmetadata, rfl⟩, ?_⟩
    exact bind_ok_iff.mpr ⟨credentials.dek, s,
      lift_ok_iff.mpr ⟨(passwordKey_ok_iff hc hrow _ _).mpr ⟨rfl, rfl⟩, rfl⟩, rfl⟩

theorem unsealWithRecovery_ok_iff (hc : c.Ideal) {s s' : Vault Key} {b : Book Key}
    (h : Custody c s b) {faults : Faults} {phrase : String} {u : Unit} :
    unsealWithRecovery c faults phrase s = .ok u s' ↔ faults .select = none ∧
      ∃ credentials, b.committed = some credentials ∧ SamePhrase c phrase credentials.phrase ∧
        s' = { s with dek := some credentials.dek } := by
  unfold unsealWithRecovery loadMetadata
  rw [bind_ok_iff]
  constructor
  · rintro ⟨view, s₁, hload, h'⟩
    obtain ⟨_, s₂, hexecute, hget⟩ := bind_ok_iff.mp hload
    obtain ⟨hfault, rfl⟩ := execute_ok_iff.mp hexecute
    cases hget
    obtain ⟨row, s₁, hrequire, h'⟩ := bind_ok_iff.mp h'
    obtain ⟨hview, rfl⟩ := requireRow_ok_iff.mp hrequire
    obtain ⟨dek, s₁, hlift, h'⟩ := bind_ok_iff.mp h'
    obtain ⟨hdek, rfl⟩ := lift_ok_iff.mp hlift
    have hstored := h.stored
    rw [hview] at hstored
    obtain ⟨credentials, hcommitted, hrow⟩ := hstored.some_left
    obtain ⟨hphrase, rfl⟩ := (recoveryKey_ok_iff hc hrow phrase dek).mp hdek
    exact ⟨hfault, credentials, hcommitted, hphrase, modify_ok_iff.mp h'⟩
  · rintro ⟨hfault, credentials, hcommitted, hphrase, rfl⟩
    have hstored := h.stored
    rw [hcommitted] at hstored
    obtain ⟨row, hmetadata, hrow⟩ := hstored.some_right
    refine ⟨s.metadata, s, bind_ok_iff.mpr ⟨(), s, execute_ok_iff.mpr ⟨hfault, rfl⟩, rfl⟩, ?_⟩
    refine bind_ok_iff.mpr ⟨row, s, requireRow_ok_iff.mpr ⟨hmetadata, rfl⟩, ?_⟩
    exact bind_ok_iff.mpr ⟨credentials.dek, s,
      lift_ok_iff.mpr ⟨(recoveryKey_ok_iff hc hrow _ _).mpr ⟨hphrase, rfl⟩, rfl⟩, rfl⟩

/-! ## Calls that fail -/

/-- What is stored and the data key are as before. -/
def Unchanged (s s' : Vault Key) : Prop := s'.metadata = s.metadata ∧ s'.dek = s.dek

theorem unchanged_refl (s : Vault Key) : Unchanged s s := ⟨rfl, rfl⟩

theorem unchanged_trans (s s' s'' : Vault Key) (h : Unchanged s s') (h' : Unchanged s' s'') :
    Unchanged s s'' := ⟨h'.1.trans h.1, h'.2.trans h.2⟩

theorem AtMostRead.unchanged {tx : Connection} {s s' : Vault Key} (h : AtMostRead tx s s') :
    Unchanged s s' := by
  rcases h with rfl | rfl
  · exact unchanged_refl _
  · exact ⟨rfl, rfl⟩

theorem InTransaction.unchanged {α : Type} {faults : Faults} {tx : Connection}
    {Stored : Vault Key → VaultRow → α → Prop} {x : VaultM Key α}
    (hx : InTransaction faults tx Stored x) : KeepsOnError Unchanged x :=
  fun s e s' h => (hx.error s e s' h).unchanged

theorem unchanged_inOwnTransaction {α : Type} {faults : Faults} {x : Connection → VaultM Key α}
    {Stored : Vault Key → VaultRow → α → Prop}
    (hx : InTransaction faults .own Stored (x .own)) :
    KeepsOnError Unchanged (inOwnTransaction faults x) := by
  intro s e s' h
  have hrollback : ∀ s₁ : Vault Key, Unchanged s₁ (s₁.rollback .own) := fun _ => ⟨rfl, rfl⟩
  rcases inOwnTransaction_error h with rfl | ⟨e', s₁, hfail, rfl⟩ | ⟨a, s₁, hok, rfl⟩
  · exact hrollback s
  · exact unchanged_trans _ _ _ (hx.unchanged s e' s₁ hfail) (hrollback s₁)
  · obtain ⟨-, -, -, row, -, rfl⟩ := (hx.ok_iff s a s₁).mp hok
    exact unchanged_trans _ (s.write .own row) _ ⟨rfl, rfl⟩ (hrollback _)

def Still (s s' : Vault Key) : Prop := s' = s

theorem still_refl (s : Vault Key) : Still s s := rfl

theorem still_trans (s s' s'' : Vault Key) (h : Still s s') (h' : Still s' s'') : Still s s'' :=
  Eq.trans h' h

theorem Still.unchanged {s s' : Vault Key} (h : Still s s') : Unchanged s s' :=
  h ▸ unchanged_refl s

theorem loadMetadata_still {faults : Faults} {statement : Statement} {s s' : Vault Key}
    {row : Option VaultRow} (h : loadMetadata faults statement s = .ok row s') : Still s s' := by
  unfold loadMetadata at h
  obtain ⟨_, s₁, hexecute, hget⟩ := bind_ok_iff.mp h
  obtain ⟨-, rfl⟩ := execute_ok_iff.mp hexecute
  cases hget
  rfl

theorem still_loadMetadata (faults : Faults) (statement : Statement) :
    KeepsOnError (@Still Key) (loadMetadata faults statement) := by
  intro s e s' h
  unfold loadMetadata at h
  rcases bind_error_iff.mp h with h | ⟨_, s₁, -, h⟩
  · exact (execute_error h).symm
  · cases h

theorem still_takeKey (faults : Faults) (statement : Statement)
    (open' : VaultRow → Except VaultError Key) :
    KeepsOnError (@Still Key) (do
      let row ← requireRow (← loadMetadata faults statement)
      let dek ← CriticalSection.lift (open' row)
      modify fun s => { s with dek := some dek }) := by
  refine keepsOnError_bind still_trans (fun _ _ _ h => loadMetadata_still h)
    (still_loadMetadata faults statement) fun view => ?_
  refine keepsOnError_bind still_trans (fun _ _ _ h => (requireRow_ok_iff.mp h).2.symm) ?_
    fun row => ?_
  · cases view with
    | none => exact keepsOnError_throw still_refl _
    | some row => exact keepsOnError_of_ok fun s => ⟨row, s, rfl⟩
  · exact keepsOnError_bind still_trans (fun _ _ _ h => (lift_ok_iff.mp h).2.symm)
      (keepsOnError_lift still_refl _) fun dek => keepsOnError_of_ok fun s => ⟨_, _, rfl⟩

theorem still_withDek (f : Key → Except VaultError String) :
    KeepsOnError Still (do CriticalSection.lift (f (← currentDek)) : VaultM Key String) :=
  keepsOnError_bind still_trans (fun _ _ _ h => (currentDek_ok_iff.mp h).2.symm)
    (fun _ _ _ h => (currentDek_error h).symm)
    fun _ => keepsOnError_lift still_refl _

theorem commit_ok {faults : Faults} {tx : Connection} {s s' : Vault Key} {u : Unit}
    (h : Secrets.commit faults tx s = .ok u s') : s' = s.commit tx := by
  unfold Secrets.commit at h
  cases hfault : faults .commit with
  | none =>
    rw [hfault] at h
    cases h
    rfl
  | some message =>
    rw [hfault] at h
    cases h

theorem commit_error {faults : Faults} {tx : Connection} {s s' : Vault Key}
    (h : Secrets.commit faults tx s = .error e s') : s' = s.rollback tx := by
  unfold Secrets.commit at h
  cases hfault : faults .commit with
  | none =>
    rw [hfault] at h
    cases h
  | some message =>
    rw [hfault] at h
    cases h
    rfl

theorem unchanged_commit (faults : Faults) (tx : Connection) :
    KeepsOnError (@Unchanged Key) (Secrets.commit faults tx) :=
  fun _ _ _ h => commit_error h ▸ ⟨rfl, rfl⟩

namespace Kept

variable {s s₁ : Vault Key} {b : Book Key}

theorem initialize_own_ok (h : Kept c s b) (hc : c.Ideal) {faults : Faults} {password phrase : String}
    {random : InitializeRandom Key}
    (hok : inOwnTransaction faults (fun tx => initializeInTransaction c faults password random tx)
      s = .ok phrase s₁) :
    Kept c s₁ ((b.store .own ⟨password, phrase, random.dek⟩).commit .own) := by
  refine own_ok (initialize_inTransaction faults password random .own) ?_ hok
  rintro row hmay ⟨hview, hrow, rfl⟩
  exact h.initialized .own hc hmay hview hrow

theorem initializes (h : Kept c s b) {faults : Faults} {password phrase : String}
    {random : InitializeRandom Key}
    (hok : inOwnTransaction faults (fun tx => initializeInTransaction c faults password random tx)
      s = .ok phrase s₁) : Initializes c s password random faults := by
  obtain ⟨hbegin, hcommit, s₂, hin, -⟩ := inOwnTransaction_ok_iff.mp hok
  obtain ⟨hselect, hwrite, hmay, row, ⟨hview, hrow, -⟩, -⟩ :=
    ((initialize_inTransaction faults password random .own).ok_iff s phrase s₂).mp hin
  have hwrote : (s.txs .own).wrote = false := by
    rw [h.own]
    rfl
  refine ⟨?_, ?_, ?_, row, hrow⟩
  · intro statement hne
    cases statement with
    | begin => exact hbegin
    | select => exact hselect
    | write => exact hwrite
    | commit => exact hcommit
    | reload => exact absurd rfl hne
  · rw [← h.viewOf_eq .own hmay hwrote]
    exact hview
  · unfold mayWrite at hmay
    rw [hwrote, Bool.false_or, Bool.and_eq_true] at hmay
    exact Bool.not_eq_true' _ ▸ hmay.1

theorem own_error_of_finishes {random : InitializeRandom Key} (h : Kept c s b) (hc : c.Ideal)
    {faults : Faults} {s' : Vault Key}
    (hfinishes : (Call.initializeVault password random faults).Finishes c s)
    (hrun : (Call.initializeVault password random faults).run c s = .error e s') :
    inOwnTransaction faults (fun tx => initializeInTransaction c faults password random tx) s =
      .error e s' := by
  rcases bind_error_iff.mp hrun with hfail | ⟨phrase, s₁, hok, hrun⟩
  · exact hfail
  · exfalso
    have hkept := h.initialize_own_ok hc hok
    have hreload : faults .reload = none := hfinishes (h.initializes hok)
    have hopen := (unsealAt_ok_iff hc hkept.toCustody (u := ())).mpr
      ⟨hreload, _, b.committed_commit_store .own _, rfl, rfl⟩
    rcases bind_error_iff.mp hrun with hfail | ⟨_, s₂, -, hreturn⟩
    · rw [hopen] at hfail
      cases hfail
    · cases hreturn

end Kept

/-- **What a call that fails leaves.**  Only initializing can fail after it changed something. -/
theorem leavesOnError_iff (hc : c.Ideal) {s : Vault Key} {b : Book Key} (h : Kept c s b)
    (call : Call Key) : LeavesOnError c s call ↔ call.Finishes c s := by
  cases call with
  | initializeVault password random faults =>
    have hx := initialize_inTransaction (c := c) faults password random .own
    constructor
    · rintro hleaves ⟨hfaults, hmetadata, hlocked, row, hrow⟩
      by_contra hreload
      obtain ⟨message, hreload⟩ := Option.ne_none_iff_exists'.mp hreload
      have hview : s.viewOf .own = (s.commits, none) := by
        unfold Vault.viewOf
        rw [h.own, hmetadata]
        rfl
      have hmay : s.mayWrite .own = true := by
        unfold Vault.mayWrite
        rw [hlocked, hview, h.own]
        exact beq_self_eq_true _
      have hin := (hx.ok_iff s (recoveryPhrase random.entropy) (s.write .own row)).mpr
        ⟨hfaults _ (by decide), hfaults _ (by decide), hmay, row,
          ⟨congrArg Prod.snd hview, hrow, rfl⟩, rfl⟩
      have hcommit := inOwnTransaction_ok_iff.mpr
        ⟨hfaults .begin (by decide), hfaults .commit (by decide), _, hin, rfl⟩
      have hrun : (Call.initializeVault password random faults).run c s =
          .error (.database message) ((s.write .own row).commit .own) := by
        refine bind_error_iff.mpr (.inr ⟨_, _, hcommit, bind_error_iff.mpr (.inl ?_)⟩)
        refine bind_error_iff.mpr (.inl (bind_error_iff.mpr (.inl ?_)))
        unfold execute
        rw [hreload]
        rfl
      have hstored := (hleaves _ _ hrun).1
      rw [hmetadata] at hstored
      unfold Vault.commit at hstored
      rw [if_pos (congrArg Tx.wrote (s.write_txs_self .own row))] at hstored
      have hrow' : ((s.write .own row).viewOf .own).2 = some row := by
        unfold Vault.viewOf
        rw [s.write_txs_self]
        rfl
      exact absurd (hrow'.symm.trans hstored) (by simp)
    · intro hfinishes e s' hrun
      rcases bind_error_iff.mp hrun with hfail | ⟨phrase, s₁, hok, hrun⟩
      · exact unchanged_inOwnTransaction hx s e s' hfail
      · exfalso
        have hkept := h.initialize_own_ok hc hok
        have hreload : faults .reload = none := hfinishes (h.initializes hok)
        have hopen := (unsealAt_ok_iff hc hkept.toCustody (u := ())).mpr
          ⟨hreload, _, b.committed_commit_store .own _, rfl, rfl⟩
        rcases bind_error_iff.mp hrun with hfail | ⟨_, s₂, -, hreturn⟩
        · rw [hopen] at hfail
          cases hfail
        · cases hreturn
  | unsealVault password faults | unsealWithRecovery phrase faults =>
    exact iff_of_true (fun e s' h =>
      (keepsOnError_return (still_takeKey faults .select _) _ s e s' h).unchanged) trivial
  | sealVault | rollback n =>
    exact iff_of_true (keepsOnError_of_ok (R := Unchanged) (fun s => ⟨_, _, rfl⟩) s) trivial
  | changePassword old new random faults =>
    exact iff_of_true (keepsOnError_return (unchanged_inOwnTransaction
      (changePassword_inTransaction faults old new random .own)) _ s) trivial
  | rewrapUnsealed new random faults =>
    exact iff_of_true (keepsOnError_return (unchanged_inOwnTransaction
      (rewrapUnsealed_inTransaction faults new random .own)) _ s) trivial
  | initializeIn n password random faults =>
    exact iff_of_true
      ((initialize_inTransaction faults password random (.caller n)).unchanged s) trivial
  | changePasswordIn n old new random faults =>
    exact iff_of_true (keepsOnError_return
      (changePassword_inTransaction faults old new random (.caller n)).unchanged _ s) trivial
  | rewrapUnsealedIn n new random faults =>
    exact iff_of_true (keepsOnError_return
      (rewrapUnsealed_inTransaction faults new random (.caller n)).unchanged _ s) trivial
  | commit n faults =>
    exact iff_of_true (keepsOnError_return (unchanged_commit faults (.caller n)) _ s) trivial
  | encryptString plaintext aad nonce | decryptString text aad => 
    exact iff_of_true (fun e s' h => (still_withDek _ s e s' h).unchanged) trivial

/-! ## Calls that succeed -/

namespace Kept

variable {s s' : Vault Key} {b : Book Key}

theorem takeDek (h : Kept c s b) {credentials : Credentials Key}
    (hcommitted : b.committed = some credentials) :
    Kept c { s with dek := some credentials.dek } b :=
  ⟨h.setDek fun _ hkey => ⟨credentials, hcommitted, Option.some.inj hkey⟩, h.own⟩

theorem answer {x : VaultM Key Unit} {answer : String}
    (hok : (do x; return "" : VaultM Key String) s = .ok answer s') : x s = .ok () s' := by
  obtain ⟨_, s₁, hx, h⟩ := bind_ok_iff.mp hok
  obtain ⟨-, rfl⟩ := pure_ok_iff.mp h
  exact hx

theorem ok (h : Kept c s b) (hc : c.Ideal) {call : Call Key} {answer : String}
    (hok : call.run c s = .ok answer s') : Kept c s' (b.recordOk answer call) := by
  cases call with
  | initializeVault password random faults =>
    obtain ⟨phrase, s₁, hown, hok⟩ := bind_ok_iff.mp hok
    obtain ⟨_, s₂, hopen, hok⟩ := bind_ok_iff.mp hok
    obtain ⟨rfl, rfl⟩ := pure_ok_iff.mp hok
    have hkept := h.initialize_own_ok hc hown
    obtain ⟨-, credentials, hcommitted, -, rfl⟩ := (unsealAt_ok_iff hc hkept.toCustody).mp hopen
    exact hkept.takeDek hcommitted
  | unsealVault password faults =>
    obtain ⟨-, credentials, hcommitted, -, rfl⟩ :=
      (unsealAt_ok_iff hc h.toCustody).mp (Kept.answer hok)
    exact h.takeDek hcommitted
  | unsealWithRecovery phrase faults =>
    obtain ⟨-, credentials, hcommitted, -, rfl⟩ :=
      (unsealWithRecovery_ok_iff hc h.toCustody).mp (Kept.answer hok)
    exact h.takeDek hcommitted
  | sealVault =>
    have hseal := modify_ok_iff.mp (Kept.answer hok)
    rw [hseal]
    exact ⟨h.setDek fun _ hkey => (nomatch hkey), h.own⟩
  | changePassword old new random faults =>
    refine own_ok (changePassword_inTransaction faults old new random .own) ?_ (Kept.answer hok)
    rintro row hmay ⟨row₀, params, dek, dek₀, hview, -, -, hdek, hrow⟩
    exact h.rewrapped .own hc hmay hview hdek hrow
  | rewrapUnsealed new random faults =>
    refine own_ok (rewrapUnsealed_inTransaction faults new random .own) ?_ (Kept.answer hok)
    rintro row hmay ⟨row₀, params, dek, hview, -, hdek, hrow⟩
    exact h.rewrapped .own hc hmay hview hdek hrow
  | initializeIn n password random faults =>
    refine h.caller_ok (initialize_inTransaction faults password random (.caller n)) ?_ hok
    rintro row hmay ⟨hview, hrow, rfl⟩
    exact h.initialized (.caller n) hc hmay hview hrow
  | changePasswordIn n old new random faults =>
    refine h.caller_ok (changePassword_inTransaction faults old new random (.caller n)) ?_
      (Kept.answer hok)
    rintro row hmay ⟨row₀, params, dek, dek₀, hview, -, -, hdek, hrow⟩
    exact h.rewrapped (.caller n) hc hmay hview hdek hrow
  | rewrapUnsealedIn n new random faults =>
    refine h.caller_ok (rewrapUnsealed_inTransaction faults new random (.caller n)) ?_
      (Kept.answer hok)
    rintro row hmay ⟨row₀, params, dek, hview, -, hdek, hrow⟩
    exact h.rewrapped (.caller n) hc hmay hview hdek hrow
  | commit n faults =>
    rw [commit_ok (Kept.answer hok)]
    exact ⟨h.toCustody.commit (.caller n), (s.commit_txs_of_ne _ (own_ne_caller n)).trans h.own⟩
  | rollback n =>
    rw [modify_ok_iff.mp (Kept.answer hok)]
    exact ⟨h.toCustody.rollback (.caller n),
      (s.rollback_txs_of_ne _ (own_ne_caller n)).trans h.own⟩
  | encryptString plaintext aad nonce =>
    obtain ⟨dek, s₁, hcurrent, hok⟩ := bind_ok_iff.mp hok
    obtain ⟨hdek, rfl⟩ := currentDek_ok_iff.mp hcurrent
    obtain ⟨hencrypt, rfl⟩ := lift_ok_iff.mp hok
    obtain ⟨credentials, hcommitted, rfl⟩ := h.memory dek hdek
    refine ⟨⟨h.stored, h.memory, fun tx => (h.txs tx).frame rfl rfl rfl rfl, h.writer, ?_⟩, h.own⟩
    exact forall_mem_cons.mpr ⟨⟨credentials, nonce, hcommitted, hencrypt⟩, h.encrypted⟩
  | decryptString text aad =>
    obtain ⟨dek, s₁, hcurrent, hok⟩ := bind_ok_iff.mp hok
    obtain ⟨-, rfl⟩ := currentDek_ok_iff.mp hcurrent
    obtain ⟨-, rfl⟩ := lift_ok_iff.mp hok
    exact h

theorem error (h : Kept c s b) (hc : c.Ideal) {call : Call Key} (hfinishes : call.Finishes c s)
    (herror : call.run c s = .error e s') : Kept c s' (b.recordError call) := by
  have hstill : Still s s' → Kept c s' b := fun heq => heq ▸ h
  -- The section of a call that answers nothing is what failed.
  have hx : ∀ {x : VaultM Key Unit}, (do x; return "" : VaultM Key String) s = .error e s' →
      x s = .error e s' := by
    intro x hrun
    rcases bind_error_iff.mp hrun with hfail | ⟨_, s₁, -, hreturn⟩
    · exact hfail
    · cases hreturn
  cases call with
  | initializeVault password random faults =>
    refine h.own_error (initialize_inTransaction faults password random .own) ?_
      (h.own_error_of_finishes hc hfinishes herror)
    rintro row phrase hmay ⟨hview, hrow, -⟩
    exact ⟨_, h.initialized .own hc hmay hview hrow⟩
  | unsealVault password faults => exact hstill (still_takeKey faults .select _ s e s' (hx herror))
  | unsealWithRecovery phrase faults =>
    exact hstill (still_takeKey faults .select _ s e s' (hx herror))
  | sealVault | rollback n => cases hx herror
  | changePassword old new random faults =>
    refine h.own_error (changePassword_inTransaction faults old new random .own) ?_ (hx herror)
    rintro row _ hmay ⟨row₀, params, dek, dek₀, hview, -, -, hdek, hrow⟩
    exact ⟨_, h.rewrapped .own hc hmay hview hdek hrow⟩
  | rewrapUnsealed new random faults =>
    refine h.own_error (rewrapUnsealed_inTransaction faults new random .own) ?_ (hx herror)
    rintro row _ hmay ⟨row₀, params, dek, hview, -, hdek, hrow⟩
    exact ⟨_, h.rewrapped .own hc hmay hview hdek hrow⟩
  | initializeIn n password random faults =>
    exact h.caller_error (initialize_inTransaction faults password random (.caller n)) herror
  | changePasswordIn n old new random faults =>
    exact h.caller_error (changePassword_inTransaction faults old new random (.caller n))
      (hx herror)
  | rewrapUnsealedIn n new random faults =>
    exact h.caller_error (rewrapUnsealed_inTransaction faults new random (.caller n)) (hx herror)
  | commit n faults =>
    rw [commit_error (hx herror)]
    exact ⟨h.toCustody.rollback (.caller n),
      (s.rollback_txs_of_ne _ (own_ne_caller n)).trans h.own⟩
  | encryptString plaintext aad nonce | decryptString text aad =>
    exact hstill (still_withDek _ s e s' herror)

end Kept

/-! ## Runs -/

/-- Every call of a run meets the condition when it is made. -/
def Finishing (c : Crypto Key) (calls : List (Call Key)) : Prop :=
  ∀ before call after, calls = before ++ call :: after → call.Finishes c (play c before).1

theorem play_append_singleton (calls : List (Call Key)) (call : Call Key) :
    play c (calls ++ [call]) = ((call.run c).stateAfter (play c calls).1,
      (play c calls).2.record call ((call.run c).result (play c calls).1)) := by
  unfold play
  rw [foldl_append]
  rfl

theorem kept_play (hc : c.Ideal) {calls : List (Call Key)} (h : Finishing c calls) :
    Kept c (play c calls).1 (play c calls).2 := by
  induction calls using List.reverseRecOn with
  | nil => exact ⟨custody_start, rfl⟩
  | append_singleton calls call ih =>
    have hkept := ih fun before call' after heq =>
      h before call' (after ++ [call]) (by rw [heq]; simp)
    have hfinishes : call.Finishes c (play c calls).1 := h calls call [] rfl
    rw [play_append_singleton]
    unfold stateAfter result
    cases hrun : call.run c (play c calls).1 with
    | ok answer s' => exact hkept.ok hc hrun
    | error e s' => exact hkept.error hc hfinishes hrun

theorem finishing_of_forall {calls : List (Call Key)}
    (h : ∀ call ∈ calls, ∀ s, call.Finishes c s) : Finishing c calls := by
  rintro before call after rfl
  exact h call (mem_append_right _ mem_cons_self) _

/-- A call in a transaction of its caller that does not commit. -/
def Call.Uncommitted : Call Key → Prop
  | .initializeIn .. | .changePasswordIn .. | .rewrapUnsealedIn .. | .rollback _ => True
  | _ => False

theorem InTransaction.uncommitted {α : Type} {faults : Faults} {tx : Connection}
    {Stored : Vault Key → VaultRow → α → Prop} {x : VaultM Key α}
    (hx : InTransaction faults tx Stored x) (s : Vault Key) : Unchanged s (x.stateAfter s) := by
  refine stateAfter_of_keeps (fun s a s' h => ?_) hx.unchanged s
  obtain ⟨-, -, -, row, -, rfl⟩ := (hx.ok_iff s a s').mp h
  exact ⟨rfl, rfl⟩

theorem stateAfter_return {x : VaultM Key Unit} {s : Vault Key} (answer : String) :
    (do x; return answer : VaultM Key String).stateAfter s = x.stateAfter s := by
  unfold stateAfter
  cases hx : x s with
  | ok u s' =>
    have hreturn : (do x; return answer : VaultM Key String) s = .ok answer s' :=
      bind_ok_iff.mpr ⟨u, s', hx, rfl⟩
    rw [hreturn]
  | error e s' =>
    have hreturn : (do x; return answer : VaultM Key String) s = .error e s' :=
      bind_error_iff.mpr (.inl hx)
    rw [hreturn]

theorem unchanged_uncommitted {s : Vault Key} {call : Call Key} (h : call.Uncommitted) :
    Unchanged s ((call.run c).stateAfter s) := by
  cases call with
  | initializeIn n password random faults =>
    exact (initialize_inTransaction faults password random (.caller n)).uncommitted s
  | changePasswordIn n old new random faults =>
    show Unchanged s (CriticalSection.stateAfter (do _; return _) s)
    rw [stateAfter_return]
    exact (changePassword_inTransaction faults old new random (.caller n)).uncommitted s
  | rewrapUnsealedIn n new random faults =>
    show Unchanged s (CriticalSection.stateAfter (do _; return _) s)
    rw [stateAfter_return]
    exact (rewrapUnsealed_inTransaction faults new random (.caller n)).uncommitted s
  | rollback n => exact ⟨rfl, rfl⟩
  | _ => exact h.elim

/-! ## The law -/

/-- What a vault owes to its users, in a state with the book of what was done. -/
structure Safe (c : Crypto Key) (s : Vault Key) (b : Book Key) : Prop where
  /-- A key in memory is the one that both wrappers hold. -/
  dek : ∀ key, s.dek = some key → ∃ credentials row, b.committed = some credentials ∧
    s.metadata = some row ∧ passwordKey c row credentials.password = .ok key ∧
    recoveryKey c row credentials.phrase = .ok key ∧
    (∀ password key', passwordKey c row password = .ok key' → key' = key) ∧
    ∀ phrase key', recoveryKey c row phrase = .ok key' → key' = key
  unsealVault : ∀ password, (Secrets.unsealVault c noFaults password).result s = .ok () ↔
    ∃ credentials, b.committed = some credentials ∧ password = credentials.password
  unsealWithRecovery : ∀ phrase,
    (Secrets.unsealWithRecovery c noFaults phrase).result s = .ok () ↔
      ∃ credentials, b.committed = some credentials ∧ SamePhrase c phrase credentials.phrase
  decrypts : ∀ e ∈ b.encrypted, s.dek ≠ none →
    (decryptString c e.text e.aad).result s = .ok e.plaintext
  errors : ∀ call, LeavesOnError c s call ↔ call.Finishes c s
  uncommitted : ∀ call : Call Key, call.Uncommitted → Unchanged s ((call.run c).stateAfter s)

theorem result_eq_ok_iff {α : Type} {x : VaultM Key α} {s : Vault Key} {a : α} :
    x.result s = .ok a ↔ ∃ s', x s = .ok a s' := by
  unfold result
  cases x s with
  | ok a' s' =>
    constructor
    · intro h
      cases h
      exact ⟨s', rfl⟩
    · rintro ⟨_, h⟩
      cases h
      rfl
  | error e s' =>
    constructor
    · intro h
      cases h
    · rintro ⟨_, h⟩
      cases h

/-- **The vault keeps its secrets.**  After any calls whose initializations finish, a key in memory
is the one that is stored, the password and the phrase of the last commit open the vault and
nothing else does, what was encrypted can be decrypted, and what fails or is not committed changes
nothing. -/
theorem vault_custody (c : Crypto Key) (hc : c.Ideal) (calls : List (Call Key))
    (hcalls : Finishing c calls) : Safe c (play c calls).1 (play c calls).2 := by
  have h := kept_play hc hcalls
  generalize (play c calls).1 = s at h ⊢
  generalize (play c calls).2 = b at h ⊢
  constructor
  · intro key hdek
    obtain ⟨credentials, hcommitted, rfl⟩ := h.memory key hdek
    have hstored := h.stored
    rw [hcommitted] at hstored
    obtain ⟨row, hmetadata, hrow⟩ := hstored.some_right
    exact ⟨credentials, row, hcommitted, hmetadata,
      (passwordKey_ok_iff hc hrow _ _).mpr ⟨rfl, rfl⟩,
      (recoveryKey_ok_iff hc hrow _ _).mpr ⟨rfl, rfl⟩,
      fun password key hkey => ((passwordKey_ok_iff hc hrow _ _).mp hkey).2,
      fun phrase key hkey => ((recoveryKey_ok_iff hc hrow _ _).mp hkey).2⟩
  · intro password
    rw [result_eq_ok_iff]
    constructor
    · rintro ⟨s', hok⟩
      obtain ⟨-, credentials, hcommitted, hpassword, -⟩ := (unsealAt_ok_iff hc h.toCustody).mp hok
      exact ⟨credentials, hcommitted, hpassword⟩
    · rintro ⟨credentials, hcommitted, hpassword⟩
      exact ⟨_, (unsealAt_ok_iff hc h.toCustody).mpr
        ⟨rfl, credentials, hcommitted, hpassword, rfl⟩⟩
  · intro phrase
    rw [result_eq_ok_iff]
    constructor
    · rintro ⟨s', hok⟩
      obtain ⟨-, credentials, hcommitted, hphrase, -⟩ :=
        (unsealWithRecovery_ok_iff hc h.toCustody).mp hok
      exact ⟨credentials, hcommitted, hphrase⟩
    · rintro ⟨credentials, hcommitted, hphrase⟩
      exact ⟨_, (unsealWithRecovery_ok_iff hc h.toCustody).mpr
        ⟨rfl, credentials, hcommitted, hphrase, rfl⟩⟩
  · intro e he hdek
    obtain ⟨key, hkey⟩ := Option.ne_none_iff_exists'.mp hdek
    obtain ⟨credentials, hcommitted, rfl⟩ := h.memory key hkey
    obtain ⟨credentials', nonce, hcommitted', hencrypt⟩ := h.encrypted e he
    rw [hcommitted] at hcommitted'
    cases hcommitted'
    refine result_eq_ok_iff.mpr ⟨s, bind_ok_iff.mpr ⟨credentials.dek, s, ?_, ?_⟩⟩
    · exact currentDek_ok_iff.mpr ⟨hkey, rfl⟩
    · exact lift_ok_iff.mpr ⟨decryptUnder_encryptUnder hc hencrypt, rfl⟩
  · exact leavesOnError_iff hc h
  · exact fun call hcall => unchanged_uncommitted hcall

/-! ## A cipher that shows what it encrypts -/

namespace Clear

/-- The bytes, each after a mark, and an end. -/
def pack (bytes : Bytes) : Bytes := bytes.flatMap (fun byte => [1, byte]) ++ [0]

theorem pack_append_inj {a a' x x' : Bytes} (h : pack a ++ x = pack a' ++ x') :
    a = a' ∧ x = x' := by
  induction a generalizing a' with
  | nil =>
    cases a' with
    | nil => exact ⟨rfl, append_cancel_left h⟩
    | cons b a' => exact absurd (head_eq_of_cons_eq h) (by decide)
  | cons b a ih =>
    cases a' with
    | nil => exact absurd (head_eq_of_cons_eq h) (by decide)
    | cons b' a' =>
      have htail := tail_eq_of_cons_eq h
      obtain ⟨rfl, rfl⟩ := ih (tail_eq_of_cons_eq htail)
      rw [head_eq_of_cons_eq htail]
      exact ⟨rfl, rfl⟩

def defaultText : String := "\x7b\"m_cost\":65536,\"t_cost\":3,\"p_cost\":1\x7d"

/-- The key and the additional data stand before the plaintext. -/
def crypto : Crypto Bytes where
  versionTag := 1
  encrypt key _ plaintext aad := .ok (pack key ++ pack aad ++ plaintext)
  decrypt key blob aad :=
    if (pack key ++ pack aad).isPrefixOf blob then
      .ok (blob.drop (pack key ++ pack aad).length)
    else .error (.cipherError "aead::Error")
  deriveKey password _ _ := .ok password
  keyBytes key := key
  keyOfBytes bytes := some bytes
  sha256Hex text := text
  paramsToString params := if params = .default then .ok defaultText else .error (.json "")
  paramsFromStr text := if text = defaultText then .ok .default else .error (.json "")
  toUppercase char := [char.toUpper]

theorem decrypt_ok {key blob aad plaintext : Bytes}
    (h : crypto.decrypt key blob aad = .ok plaintext) : blob = pack key ++ pack aad ++ plaintext := by
  unfold crypto at h
  dsimp only at h
  split_ifs at h with hpre
  obtain ⟨rest, rfl⟩ := isPrefixOf_iff_prefix.mp hpre
  cases h
  rw [drop_left]

theorem ideal : crypto.Ideal where
  decrypt_encrypt := by
    rintro key nonce plaintext aad _ ⟨⟩
    unfold crypto
    dsimp only
    rw [if_pos (List.isPrefixOf_iff_prefix.mpr (prefix_append _ _)), drop_left]
  encrypted_with := by
    rintro key nonce plaintext aad _ key' aad' plaintext' ⟨⟩ h
    have heq := decrypt_ok h
    rw [append_assoc, append_assoc] at heq
    obtain ⟨hkey, heq⟩ := pack_append_inj heq
    exact ⟨hkey.symm, (pack_append_inj heq).1.symm⟩
  deriveKey_injective := by
    rintro password password' salt params _ ⟨⟩ ⟨⟩
    rfl
  keyOfBytes_keyBytes _ := rfl
  params_roundTrip := by
    intro params text h
    unfold crypto at h ⊢
    dsimp only at h ⊢
    split_ifs at h with hparams
    cases h
    rw [if_pos rfl, hparams]

def random : InitializeRandom Bytes where
  dek := [7]
  salt := [1, 2]
  nonce := [3]
  entropy := [0, 17, 34, 51]
  recoveryNonce := [4]

/-- A vault whose password is replaced after its recovery. -/
def calls : List (Call Bytes) :=
  [.initializeVault "old" random noFaults, .encryptString "secret" "env:KEY" [5], .sealVault,
    .unsealWithRecovery "aabb-CCDD" noFaults, .rewrapUnsealed "new" ⟨[6], [7]⟩ noFaults]

theorem finishing : Finishing crypto calls :=
  finishing_of_forall (forall_mem_cons.mpr ⟨fun _ _ => rfl,
    forall_mem_cons.mpr ⟨fun _ => trivial, forall_mem_cons.mpr ⟨fun _ => trivial,
      forall_mem_cons.mpr ⟨fun _ => trivial, forall_mem_singleton.mpr
        fun _ => trivial⟩⟩⟩⟩)

end Clear

theorem vault_custody_recovered :
    (play Clear.crypto Clear.calls).1.dek = some [7] ∧
      Safe Clear.crypto (play Clear.crypto Clear.calls).1 (play Clear.crypto Clear.calls).2 :=
  ⟨by decide, vault_custody Clear.crypto Clear.ideal Clear.calls
    Clear.finishing⟩

theorem initialize_fails_after_commit :
    ¬LeavesOnError Clear.crypto (.start Bytes) (.initializeVault "old" Clear.random
      fun statement => if statement = .reload then some "disk I/O error" else none) := by
  intro h
  have hinitializes : Initializes Clear.crypto (.start Bytes) "old" Clear.random
      (fun statement => if statement = .reload then some "disk I/O error" else none) :=
    ⟨fun _ hne => if_neg hne, rfl, rfl, _, rfl⟩
  have hreload := (leavesOnError_iff Clear.ideal ⟨custody_start, rfl⟩ _).mp h hinitializes
  exact absurd hreload (by decide)

end Chelix.Secrets
