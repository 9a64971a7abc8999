import Chelix.Secrets.Vault

/-!
# Rows and transactions
-/

namespace Chelix.Secrets

open Chelix.Library CriticalSection

variable {Key : Type} {c : Crypto Key}

/-! ## Wrappers -/

variable {dek : Key} {nonce : Bytes}

theorem wrapDek_ok_iff {kek : Key} {wrapped : String} :
    wrapDek c kek nonce dek = .ok wrapped ↔
      ∃ encrypted, c.encrypt kek nonce (c.keyBytes dek) wrapAad = .ok encrypted ∧
        toBase64 (c.versionTag :: encrypted) = wrapped := by
  unfold wrapDek
  rw [bind_eq_ok]
  constructor
  · rintro ⟨encrypted, hencrypt, h⟩
    cases h
    exact ⟨encrypted, hencrypt, rfl⟩
  · rintro ⟨encrypted, hencrypt, rfl⟩
    exact ⟨encrypted, hencrypt, rfl⟩

theorem unwrapDek_toBase64 (kek : Key) (ciphertext : Bytes) :
    unwrapDek c kek (toBase64 (c.versionTag :: ciphertext)) = (do
      let plaintext ← c.decrypt kek ciphertext wrapAad
      match c.keyOfBytes plaintext with
      | some dek => return dek
      | none =>
        throw (.cipherError ("unwrapped DEK has wrong length: " ++
          toString plaintext.length ++ " (expected 32)"))) := by
  unfold unwrapDek
  rw [fromBase64_toBase64, ok_bind]
  exact if_neg fun h => h rfl

/-- A wrapper opens with its own key, and only with it. -/
theorem unwrapDek_ok_iff (hc : c.Ideal) {kek : Key} {wrapped : String}
    (hwrap : wrapDek c kek nonce dek = .ok wrapped) (kek' dek' : Key) :
    unwrapDek c kek' wrapped = .ok dek' ↔ kek' = kek ∧ dek' = dek := by
  obtain ⟨encrypted, hencrypt, rfl⟩ := wrapDek_ok_iff.mp hwrap
  rw [unwrapDek_toBase64, bind_eq_ok]
  constructor
  · rintro ⟨plaintext, hdecrypt, h⟩
    obtain ⟨rfl, -⟩ := hc.encrypted_with _ _ _ _ _ _ _ _ hencrypt hdecrypt
    have hplain := hc.decrypt_encrypt _ _ _ _ _ hencrypt
    rw [hdecrypt] at hplain
    cases hplain
    rw [hc.keyOfBytes_keyBytes] at h
    cases h
    exact ⟨rfl, rfl⟩
  · rintro ⟨rfl, rfl⟩
    refine ⟨_, hc.decrypt_encrypt _ _ _ _ _ hencrypt, ?_⟩
    rw [hc.keyOfBytes_keyBytes]
    rfl

/-! ## Rows -/

/-- Who may open a vault, and its data key. -/
structure Credentials (Key : Type) where
  password : String
  phrase : String
  dek : Key
  deriving DecidableEq

/-- The wrappers of a row hold the data key, for the password and for the phrase. -/
structure RowHolds (c : Crypto Key) (row : VaultRow) (credentials : Credentials Key) : Prop where
  password : ∃ salt params kek nonce, decodeSalt row.kdfSalt = .ok salt ∧
    c.paramsFromStr row.kdfParams = .ok params ∧
    c.deriveKey (utf8Bytes credentials.password) salt params = .ok kek ∧
    wrapDek c kek nonce credentials.dek = .ok row.wrappedDek
  phrase : ∃ wrapped kek nonce, row.recoveryWrappedDek = some wrapped ∧
    deriveRecoveryKek c credentials.phrase = .ok kek ∧
    wrapDek c kek nonce credentials.dek = .ok wrapped

/-- The same phrase, but for dashes and the case of its characters. -/
def SamePhrase (c : Crypto Key) (phrase phrase' : String) : Prop :=
  normalizePhrase c phrase = normalizePhrase c phrase'

variable {row : VaultRow} {credentials : Credentials Key}

theorem passwordKey_ok_iff (hc : c.Ideal) (h : RowHolds c row credentials) (password : String)
    (dek : Key) :
    passwordKey c row password = .ok dek ↔
      password = credentials.password ∧ dek = credentials.dek := by
  obtain ⟨salt, params, kek, nonce, hsalt, hparams, hkek, hwrap⟩ := h.password
  unfold passwordKey
  rw [hsalt, ok_bind, hparams, ok_bind, bind_eq_ok]
  constructor
  · rintro ⟨kek', hkek', h⟩
    obtain ⟨rfl, rfl⟩ := (unwrapDek_ok_iff hc hwrap _ _).mp (mapError_eq_ok.mp h)
    exact ⟨utf8Bytes_injective (hc.deriveKey_injective _ _ _ _ _ hkek' hkek), rfl⟩
  · rintro ⟨rfl, rfl⟩
    exact ⟨kek, hkek, mapError_eq_ok.mpr ((unwrapDek_ok_iff hc hwrap _ _).mpr ⟨rfl, rfl⟩)⟩

theorem recoveryKey_ok_iff (hc : c.Ideal) (h : RowHolds c row credentials) (phrase : String)
    (dek : Key) :
    recoveryKey c row phrase = .ok dek ↔
      SamePhrase c phrase credentials.phrase ∧ dek = credentials.dek := by
  obtain ⟨wrapped, kek, nonce, hwrapped, hkek, hwrap⟩ := h.phrase
  unfold recoveryKey
  rw [hwrapped]
  show (unwrapWithRecovery c wrapped phrase).mapError _ = _ ↔ _
  rw [mapError_eq_ok]
  unfold unwrapWithRecovery
  rw [bind_eq_ok]
  constructor
  · rintro ⟨kek', hkek', h⟩
    obtain ⟨rfl, rfl⟩ := (unwrapDek_ok_iff hc hwrap _ _).mp h
    exact ⟨utf8Bytes_injective (hc.deriveKey_injective _ _ _ _ _ hkek' hkek), rfl⟩
  · rintro ⟨hsame, rfl⟩
    refine ⟨kek, ?_, (unwrapDek_ok_iff hc hwrap _ _).mpr ⟨rfl, rfl⟩⟩
    unfold deriveRecoveryKek at hkek ⊢
    rw [show normalizePhrase c phrase = normalizePhrase c credentials.phrase from hsame, hkek]

theorem initialRow_holds (hc : c.Ideal) {password : String} {random : InitializeRandom Key}
    (h : initialRow c password random = .ok row) :
    RowHolds c row ⟨password, recoveryPhrase random.entropy, random.dek⟩ := by
  unfold initialRow at h
  obtain ⟨salt, hsalt, h⟩ := bind_eq_ok.mp h
  obtain ⟨kek, hkek, h⟩ := bind_eq_ok.mp h
  obtain ⟨wrapped, hwrap, h⟩ := bind_eq_ok.mp h
  obtain ⟨⟨recoveryWrapped, hash⟩, hrecovery, h⟩ := bind_eq_ok.mp h
  obtain ⟨paramsText, hparams, h⟩ := bind_eq_ok.mp h
  cases h
  unfold wrapWithRecovery at hrecovery
  obtain ⟨recoveryKek, hrecoveryKek, h⟩ := bind_eq_ok.mp hrecovery
  obtain ⟨wrapped', hwrap', h⟩ := bind_eq_ok.mp h
  cases h
  exact ⟨⟨salt, .default, kek, random.nonce, hsalt, hc.params_roundTrip _ _ hparams, hkek, hwrap⟩,
    ⟨recoveryWrapped, recoveryKek, random.recoveryNonce, rfl, hrecoveryKek, hwrap'⟩⟩

theorem rewrappedRow_holds (hc : c.Ideal) {row' : VaultRow} {params : KdfParams} {new : String}
    {random : RewrapRandom} (hrow : RowHolds c row credentials)
    (h : rewrappedRow c row params new credentials.dek random = .ok row') :
    RowHolds c row' { credentials with password := new } := by
  unfold rewrappedRow at h
  obtain ⟨salt, hsalt, h⟩ := bind_eq_ok.mp h
  obtain ⟨kek, hkek, h⟩ := bind_eq_ok.mp h
  obtain ⟨wrapped, hwrap, h⟩ := bind_eq_ok.mp h
  obtain ⟨paramsText, hparams, h⟩ := bind_eq_ok.mp h
  cases h
  exact ⟨⟨salt, params, kek, random.nonce, hsalt, hc.params_roundTrip _ _ hparams, hkek, hwrap⟩,
    hrow.phrase⟩

theorem decryptUnder_encryptUnder (hc : c.Ideal) {plaintext aad text : String}
    (h : encryptUnder c dek nonce plaintext aad = .ok text) :
    decryptUnder c dek text aad = .ok plaintext := by
  unfold encryptUnder at h
  obtain ⟨encrypted, hencrypt, h⟩ := bind_eq_ok.mp h
  cases h
  unfold decryptUnder
  rw [fromBase64_toBase64, ok_bind]
  show (if c.versionTag ≠ c.versionTag then _ else _) = _
  rw [if_neg fun h => h rfl, hc.decrypt_encrypt _ _ _ _ _ hencrypt, ok_bind,
    ofUtf8Bytes?_utf8Bytes]
  rfl

/-! ## Transactions -/

namespace Vault

variable (s : Vault Key) (tx : Connection)

/-- After a transaction has read. -/
def read : Vault Key := s.setTx tx { s.txs tx with view := some (s.viewOf tx) }

theorem setTx_txs_self (t : Tx) : (s.setTx tx t).txs tx = t := Function.update_self ..

variable {tx' : Connection}

theorem setTx_txs_of_ne (h : tx' ≠ tx) (t : Tx) :
    (s.setTx tx t).txs tx' = s.txs tx' := Function.update_of_ne h ..

theorem read_txs_of_ne (h : tx' ≠ tx) : (s.read tx).txs tx' = s.txs tx' :=
  s.setTx_txs_of_ne tx h _

theorem write_txs_self (row : VaultRow) : (s.write tx row).txs tx =
    { view := some ((s.viewOf tx).1, some row), wrote := true } := s.setTx_txs_self tx _

theorem write_txs_of_ne (h : tx' ≠ tx) (row : VaultRow) :
    (s.write tx row).txs tx' = s.txs tx' := s.setTx_txs_of_ne tx h _

theorem rollback_txs_self : (s.rollback tx).txs tx = .unread := s.setTx_txs_self tx _

theorem rollback_txs_of_ne (h : tx' ≠ tx) :
    (s.rollback tx).txs tx' = s.txs tx' := s.setTx_txs_of_ne tx h _

theorem commit_txs_self : (s.commit tx).txs tx = .unread := by
  unfold commit
  split_ifs with h
  · exact s.setTx_txs_self tx _
  · exact s.setTx_txs_self tx _

theorem commit_txs_of_ne (h : tx' ≠ tx) : (s.commit tx).txs tx' = s.txs tx' := by
  unfold commit
  split_ifs with hwrote
  · exact s.setTx_txs_of_ne tx h _
  · exact s.setTx_txs_of_ne tx h _

theorem viewOf_read : (s.read tx).viewOf tx = s.viewOf tx := by
  unfold viewOf read
  rw [setTx_txs_self]
  rfl

theorem mayWrite_read : (s.read tx).mayWrite tx = s.mayWrite tx := by
  unfold mayWrite
  rw [viewOf_read]
  unfold read
  rw [setTx_txs_self]
  rfl

theorem write_read (row : VaultRow) : (s.read tx).write tx row = s.write tx row := by
  unfold write
  rw [viewOf_read]
  unfold read setTx
  simp only [Function.update_idem]

end Vault

variable {faults : Faults} {s s' : Vault Key}

theorem execute_ok_iff {statement : Statement} {u : Unit} :
    execute faults statement s = .ok u s' ↔ faults statement = none ∧ s = s' := by
  unfold execute
  cases faults statement with
  | none => exact pure_ok_iff.trans ⟨fun h => ⟨rfl, h.2⟩, fun h => ⟨rfl, h.2⟩⟩
  | some message => exact throw_ok_iff.trans ⟨False.elim, fun h => nomatch h.1⟩

variable {e : VaultError}

theorem execute_error {statement : Statement} (h : execute faults statement s = .error e s') :
    s = s' := by
  unfold execute at h
  cases hfault : faults statement with
  | none =>
    rw [hfault] at h
    cases h
  | some message =>
    rw [hfault] at h
    cases h
    rfl

variable {tx : Connection}

theorem loadMetadataInTransaction_ok_iff {row : Option VaultRow} :
    loadMetadataInTransaction faults tx s = .ok row s' ↔
      faults .select = none ∧ row = (s.viewOf tx).2 ∧ s' = s.read tx := by
  unfold loadMetadataInTransaction
  rw [bind_ok_iff]
  constructor
  · rintro ⟨_, s₁, hexecute, h⟩
    obtain ⟨hfault, rfl⟩ := execute_ok_iff.mp hexecute
    cases h
    refine ⟨hfault, ?_, rfl⟩
    show ((s.read tx).viewOf tx).2 = _
    rw [s.viewOf_read]
  · rintro ⟨hfault, rfl, rfl⟩
    refine ⟨(), s, execute_ok_iff.mpr ⟨hfault, rfl⟩, ?_⟩
    show EStateM.Result.ok ((s.read tx).viewOf tx).2 _ = _
    rw [s.viewOf_read]
    rfl

theorem storeInTransaction_ok_iff {u : Unit} :
    storeInTransaction faults tx row s = .ok u s' ↔
      faults .write = none ∧ s.mayWrite tx = true ∧ s' = s.write tx row := by
  unfold storeInTransaction
  rw [bind_ok_iff]
  constructor
  · rintro ⟨_, s₁, hexecute, h⟩
    obtain ⟨hfault, rfl⟩ := execute_ok_iff.mp hexecute
    obtain ⟨s₂, _, hget, h⟩ := bind_ok_iff.mp h
    obtain ⟨rfl, rfl⟩ := get_ok_iff.mp hget
    by_cases hmay : s.mayWrite tx = true
    · rw [if_pos hmay] at h
      exact ⟨hfault, hmay, modify_ok_iff.mp h⟩
    · rw [if_neg hmay] at h
      exact (throw_ok_iff.mp h).elim
  · rintro ⟨hfault, hmay, rfl⟩
    refine ⟨(), s, execute_ok_iff.mpr ⟨hfault, rfl⟩, bind_ok_iff.mpr ⟨s, s, rfl, ?_⟩⟩
    rw [if_pos hmay]
    rfl

theorem storeInTransaction_error (h : storeInTransaction faults tx row s = .error e s') :
    s = s' := by
  unfold storeInTransaction at h
  rcases bind_error_iff.mp h with h | ⟨_, s₁, hexecute, h⟩
  · exact execute_error h
  · obtain ⟨-, rfl⟩ := execute_ok_iff.mp hexecute
    rcases bind_error_iff.mp h with h | ⟨s₂, _, hget, h⟩
    · cases h
    · obtain ⟨rfl, rfl⟩ := get_ok_iff.mp hget
      by_cases hmay : s.mayWrite tx = true
      · rw [if_pos hmay] at h
        cases h
      · rw [if_neg hmay] at h
        cases h
        rfl

theorem requireRow_ok_iff {view : Option VaultRow} :
    requireRow view s = .ok row s' ↔ view = some row ∧ s = s' := by
  cases view with
  | none => exact throw_ok_iff.trans ⟨False.elim, fun h => nomatch h.1⟩
  | some row' => exact pure_ok_iff.trans ⟨fun h => ⟨h.1 ▸ rfl, h.2⟩, fun h => ⟨by cases h.1; rfl, h.2⟩⟩

theorem currentDek_ok_iff :
    (currentDek : VaultM Key Key) s = .ok dek s' ↔ s.dek = some dek ∧ s = s' := by
  unfold currentDek
  rw [bind_ok_iff]
  constructor
  · rintro ⟨s₁, _, hget, h⟩
    obtain ⟨rfl, rfl⟩ := get_ok_iff.mp hget
    cases hdek : s.dek with
    | none =>
      rw [hdek] at h
      exact (throw_ok_iff.mp h).elim
    | some dek' =>
      rw [hdek] at h
      cases h
      exact ⟨rfl, rfl⟩
  · rintro ⟨hdek, rfl⟩
    refine ⟨s, s, rfl, ?_⟩
    rw [hdek]
    rfl

theorem currentDek_error (h : (currentDek : VaultM Key Key) s = .error e s') : s = s' := by
  unfold currentDek at h
  rcases bind_error_iff.mp h with h | ⟨s₁, _, hget, h⟩
  · cases h
  · obtain ⟨rfl, rfl⟩ := get_ok_iff.mp hget
    cases hdek : s.dek with
    | none =>
      rw [hdek] at h
      cases h
      rfl
    | some dek =>
      rw [hdek] at h
      cases h

/-- A transaction may have read, and nothing else happened. -/
def AtMostRead (tx : Connection) (s s' : Vault Key) : Prop := s' = s ∨ s' = s.read tx

theorem atMostRead_refl (tx : Connection) (s : Vault Key) : AtMostRead tx s s := .inl rfl

theorem atMostRead_trans (tx : Connection) (s s' s'' : Vault Key) (h : AtMostRead tx s s')
    (h' : AtMostRead tx s' s'') : AtMostRead tx s s'' := by
  have hidem : (s.read tx).read tx = s.read tx := by
    show (s.read tx).setTx tx { (s.read tx).txs tx with view := some ((s.read tx).viewOf tx) } = _
    rw [s.viewOf_read]
    unfold Vault.read Vault.setTx
    simp only [Function.update_self, Function.update_idem]
  rcases h with rfl | rfl
  · exact h'
  · rcases h' with rfl | rfl
    · exact .inr rfl
    · exact .inr hidem

section Sections

variable {α β : Type} (tx : Connection)

theorem keepsOnError_load (faults : Faults) :
    KeepsOnError (@AtMostRead Key tx) (loadMetadataInTransaction faults tx) := by
  intro s e s' h
  unfold loadMetadataInTransaction at h
  rcases bind_error_iff.mp h with h | ⟨_, s₁, -, h⟩
  · exact .inl (execute_error h).symm
  · cases h

theorem keepsOnOk_load (faults : Faults) :
    KeepsOnOk (@AtMostRead Key tx) (loadMetadataInTransaction faults tx) :=
  fun _ _ _ h => .inr (loadMetadataInTransaction_ok_iff.mp h).2.2

theorem keepsOnError_still {x : VaultM Key α} {f : α → VaultM Key β}
    (hok : ∀ s a s', x s = .ok a s' → s = s') (herror : ∀ s e s', x s = .error e s' → s = s')
    (hf : ∀ a, KeepsOnError (AtMostRead tx) (f a)) : KeepsOnError (AtMostRead tx) (x >>= f) :=
  keepsOnError_bind (atMostRead_trans tx) (fun s a s' h => .inl (hok s a s' h).symm)
    (fun s e s' h => .inl (herror s e s' h).symm) hf

theorem keepsOnError_requireRow (view : Option VaultRow) {f : VaultRow → VaultM Key β}
    (hf : ∀ row, KeepsOnError (AtMostRead tx) (f row)) :
    KeepsOnError (AtMostRead tx) (requireRow view >>= f) := by
  refine keepsOnError_still tx (fun s a s' h => (requireRow_ok_iff.mp h).2) ?_ hf
  intro s e s' h
  cases view with
  | none =>
    cases h
    rfl
  | some row => cases h

theorem keepsOnError_lifted (x : Except VaultError α) {f : α → VaultM Key β}
    (hf : ∀ a, KeepsOnError (AtMostRead tx) (f a)) :
    KeepsOnError (AtMostRead tx) (CriticalSection.lift x >>= f) :=
  keepsOnError_still tx (fun _ _ _ h => (lift_ok_iff.mp h).2)
    (fun _ _ _ h => (lift_error_iff.mp h).2) hf

theorem keepsOnError_currentDek {f : Key → VaultM Key β}
    (hf : ∀ dek, KeepsOnError (AtMostRead tx) (f dek)) :
    KeepsOnError (AtMostRead tx) (currentDek >>= f) :=
  keepsOnError_still tx (fun _ _ _ h => (currentDek_ok_iff.mp h).2)
    (fun _ _ _ h => currentDek_error h) hf

theorem keepsOnError_store (faults : Faults) (row : VaultRow) :
    KeepsOnError (@AtMostRead Key tx) (storeInTransaction faults tx row) :=
  fun _ _ _ h => .inl (storeInTransaction_error h).symm

end Sections

/-- What a section in a transaction does: it stores a row that `Stores` allows when it succeeds,
and it has at most read when it fails. -/
structure InTransaction {α : Type} (faults : Faults) (tx : Connection)
    (Stores : Vault Key → VaultRow → α → Prop) (x : VaultM Key α) : Prop where
  ok_iff : ∀ s a s', x s = .ok a s' ↔ faults .select = none ∧ faults .write = none ∧
    s.mayWrite tx = true ∧ ∃ row, Stores s row a ∧ s' = s.write tx row
  error : KeepsOnError (AtMostRead tx) x

theorem initialize_inTransaction (faults : Faults) (password : String)
    (random : InitializeRandom Key) (tx : Connection) :
    InTransaction faults tx (fun s row phrase => (s.viewOf tx).2 = none ∧
        initialRow c password random = .ok row ∧ phrase = recoveryPhrase random.entropy)
      (initializeInTransaction c faults password random tx) where
  ok_iff s phrase s' := by
    unfold initializeInTransaction
    rw [bind_ok_iff]
    constructor
    · rintro ⟨view, s₁, hload, h⟩
      obtain ⟨hselect, rfl, rfl⟩ := loadMetadataInTransaction_ok_iff.mp hload
      cases hview : (s.viewOf tx).2 with
      | some row =>
        rw [hview] at h
        exact (throw_ok_iff.mp h).elim
      | none =>
        rw [hview] at h
        obtain ⟨row, s₁, hlift, h⟩ := bind_ok_iff.mp h
        obtain ⟨hrow, rfl⟩ := lift_ok_iff.mp hlift
        obtain ⟨_, s₁, hstore, h⟩ := bind_ok_iff.mp h
        obtain ⟨hwrite, hmay, rfl⟩ := storeInTransaction_ok_iff.mp hstore
        obtain ⟨rfl, rfl⟩ := pure_ok_iff.mp h
        rw [s.mayWrite_read] at hmay
        exact ⟨hselect, hwrite, hmay, row, ⟨rfl, hrow, rfl⟩, s.write_read tx row⟩
    · rintro ⟨hselect, hwrite, hmay, row, ⟨hview, hrow, rfl⟩, rfl⟩
      refine ⟨_, _, loadMetadataInTransaction_ok_iff.mpr ⟨hselect, rfl, rfl⟩, ?_⟩
      rw [hview]
      refine bind_ok_iff.mpr ⟨row, _, lift_ok_iff.mpr ⟨hrow, rfl⟩, bind_ok_iff.mpr ⟨(), _, ?_, rfl⟩⟩
      rw [storeInTransaction_ok_iff, s.mayWrite_read, s.write_read]
      exact ⟨hwrite, hmay, rfl⟩
  error := by
    unfold initializeInTransaction
    refine keepsOnError_bind (atMostRead_trans tx) (keepsOnOk_load tx faults)
      (keepsOnError_load tx faults) fun view => ?_
    cases view with
    | some row => exact keepsOnError_throw (atMostRead_refl tx) _
    | none =>
      refine keepsOnError_lifted tx _ fun row => ?_
      exact keepsOnError_return (keepsOnError_store tx faults row) _

theorem changePassword_inTransaction (faults : Faults) (old new : String) (random : RewrapRandom)
    (tx : Connection) :
    InTransaction faults tx (fun s row _ => ∃ row₀ params dek dek₀,
        (s.viewOf tx).2 = some row₀ ∧ (do
          let _ ← decodeSalt row₀.kdfSalt
          c.paramsFromStr row₀.kdfParams) = .ok params ∧ passwordKey c row₀ old = .ok dek₀ ∧
        s.dek = some dek ∧ rewrappedRow c row₀ params new dek random = .ok row)
      (changePasswordInTransaction c faults old new random tx) where
  ok_iff s u s' := by
    unfold changePasswordInTransaction
    rw [bind_ok_iff]
    constructor
    · rintro ⟨view, s₁, hload, h⟩
      obtain ⟨hselect, rfl, rfl⟩ := loadMetadataInTransaction_ok_iff.mp hload
      obtain ⟨row₀, s₁, hrequire, h⟩ := bind_ok_iff.mp h
      obtain ⟨hview, rfl⟩ := requireRow_ok_iff.mp hrequire
      obtain ⟨params, s₁, hlift, h⟩ := bind_ok_iff.mp h
      obtain ⟨hparams, rfl⟩ := lift_ok_iff.mp hlift
      obtain ⟨dek₀, s₁, hlift', h⟩ := bind_ok_iff.mp h
      obtain ⟨hold, rfl⟩ := lift_ok_iff.mp hlift'
      obtain ⟨dek, s₁, hcurrent, h⟩ := bind_ok_iff.mp h
      obtain ⟨hdek, rfl⟩ := currentDek_ok_iff.mp hcurrent
      obtain ⟨row, s₁, hlift'', h⟩ := bind_ok_iff.mp h
      obtain ⟨hrow, rfl⟩ := lift_ok_iff.mp hlift''
      obtain ⟨hwrite, hmay, rfl⟩ := storeInTransaction_ok_iff.mp h
      rw [s.mayWrite_read] at hmay
      exact ⟨hselect, hwrite, hmay, row, ⟨row₀, params, dek, dek₀, hview, hparams, hold, hdek, hrow⟩,
        s.write_read tx row⟩
    · rintro ⟨hselect, hwrite, hmay, row, ⟨row₀, params, dek, dek₀, hview, hparams, hold, hdek,
        hrow⟩, rfl⟩
      refine ⟨_, _, loadMetadataInTransaction_ok_iff.mpr ⟨hselect, rfl, rfl⟩, ?_⟩
      refine bind_ok_iff.mpr ⟨row₀, _, requireRow_ok_iff.mpr ⟨hview, rfl⟩, ?_⟩
      refine bind_ok_iff.mpr ⟨params, _, lift_ok_iff.mpr ⟨hparams, rfl⟩, ?_⟩
      refine bind_ok_iff.mpr ⟨dek₀, _, lift_ok_iff.mpr ⟨hold, rfl⟩, ?_⟩
      refine bind_ok_iff.mpr ⟨dek, _, currentDek_ok_iff.mpr ⟨hdek, rfl⟩, ?_⟩
      refine bind_ok_iff.mpr ⟨row, _, lift_ok_iff.mpr ⟨hrow, rfl⟩, ?_⟩
      rw [storeInTransaction_ok_iff, s.mayWrite_read, s.write_read]
      exact ⟨hwrite, hmay, rfl⟩
  error := by
    unfold changePasswordInTransaction
    refine keepsOnError_bind (atMostRead_trans tx) (keepsOnOk_load tx faults)
      (keepsOnError_load tx faults) fun view => ?_
    refine keepsOnError_requireRow tx view fun row₀ => ?_
    refine keepsOnError_lifted tx _ fun params => ?_
    refine keepsOnError_lifted tx _ fun _ => ?_
    refine keepsOnError_currentDek tx fun dek => ?_
    exact keepsOnError_lifted tx _ fun row => keepsOnError_store tx faults row

theorem rewrapUnsealed_inTransaction (faults : Faults) (new : String) (random : RewrapRandom)
    (tx : Connection) :
    InTransaction faults tx (fun s row _ => ∃ row₀ params dek,
        (s.viewOf tx).2 = some row₀ ∧ c.paramsFromStr row₀.kdfParams = .ok params ∧
        s.dek = some dek ∧ rewrappedRow c row₀ params new dek random = .ok row)
      (rewrapUnsealedInTransaction c faults new random tx) where
  ok_iff s u s' := by
    unfold rewrapUnsealedInTransaction
    rw [bind_ok_iff]
    constructor
    · rintro ⟨view, s₁, hload, h⟩
      obtain ⟨hselect, rfl, rfl⟩ := loadMetadataInTransaction_ok_iff.mp hload
      obtain ⟨row₀, s₁, hrequire, h⟩ := bind_ok_iff.mp h
      obtain ⟨hview, rfl⟩ := requireRow_ok_iff.mp hrequire
      obtain ⟨params, s₁, hlift, h⟩ := bind_ok_iff.mp h
      obtain ⟨hparams, rfl⟩ := lift_ok_iff.mp hlift
      obtain ⟨dek, s₁, hcurrent, h⟩ := bind_ok_iff.mp h
      obtain ⟨hdek, rfl⟩ := currentDek_ok_iff.mp hcurrent
      obtain ⟨row, s₁, hlift', h⟩ := bind_ok_iff.mp h
      obtain ⟨hrow, rfl⟩ := lift_ok_iff.mp hlift'
      obtain ⟨hwrite, hmay, rfl⟩ := storeInTransaction_ok_iff.mp h
      rw [s.mayWrite_read] at hmay
      exact ⟨hselect, hwrite, hmay, row, ⟨row₀, params, dek, hview, hparams, hdek, hrow⟩,
        s.write_read tx row⟩
    · rintro ⟨hselect, hwrite, hmay, row, ⟨row₀, params, dek, hview, hparams, hdek, hrow⟩, rfl⟩
      refine ⟨_, _, loadMetadataInTransaction_ok_iff.mpr ⟨hselect, rfl, rfl⟩, ?_⟩
      refine bind_ok_iff.mpr ⟨row₀, _, requireRow_ok_iff.mpr ⟨hview, rfl⟩, ?_⟩
      refine bind_ok_iff.mpr ⟨params, _, lift_ok_iff.mpr ⟨hparams, rfl⟩, ?_⟩
      refine bind_ok_iff.mpr ⟨dek, _, currentDek_ok_iff.mpr ⟨hdek, rfl⟩, ?_⟩
      refine bind_ok_iff.mpr ⟨row, _, lift_ok_iff.mpr ⟨hrow, rfl⟩, ?_⟩
      rw [storeInTransaction_ok_iff, s.mayWrite_read, s.write_read]
      exact ⟨hwrite, hmay, rfl⟩
  error := by
    unfold rewrapUnsealedInTransaction
    refine keepsOnError_bind (atMostRead_trans tx) (keepsOnOk_load tx faults)
      (keepsOnError_load tx faults) fun view => ?_
    refine keepsOnError_requireRow tx view fun row₀ => ?_
    refine keepsOnError_lifted tx _ fun params => ?_
    refine keepsOnError_currentDek tx fun dek => ?_
    exact keepsOnError_lifted tx _ fun row => keepsOnError_store tx faults row

end Chelix.Secrets
