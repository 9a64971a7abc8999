import Chelix.Secrets.Custody
import Chelix.Secrets.StoredSecrets

/-!
# What migrations do to stored secrets
-/

namespace Chelix.Secrets

open Function

open Chelix.Library List SecretTable

variable {Key Extra : Type} {c : Crypto Key} {dek : Key} {kind : TableKind}

/-- A table has the values that were last written, and no others. -/
structure Faithful (c : Crypto Key) (dek : Key) (kind : TableKind) (t : SecretTable Extra) :
    Prop where
  value : ∀ row ∈ t.rows, ∃ value, t.written row.name = some value ∧
    decryptValue c kind (some dek) row = .ok value
  present : ∀ name value, t.written name = some value → ∃ row ∈ t.rows, row.name = name

/-- The row with the number of a row that was read, if there is one, has its name; where a name is
not stored again, it has its value, too. -/
def Knows (c : Crypto Key) (dek : Key) (kind : TableKind) (t : SecretTable Extra)
    (plain : PlainRow) : Prop :=
  plain.id ≤ t.lastId ∧ ∀ row ∈ t.rows, row.id = plain.id → row.name = plain.name ∧
    (kind.upsert = false → decryptValue c kind (some dek) row = .ok plain.plaintext)

/-- What a task holds in its hands. -/
def TaskOk (c : Crypto Key) (dek : Key) (kind : TableKind) (t : SecretTable Extra) :
    Task Extra → Prop
  | .write name value _ (.storing text true) =>
    decryptUnder c dek text (kind.aad name) = .ok value
  | .write _ value _ (.storing text false) => text = value
  | .migrate rows pending => (∀ plain ∈ rows, Knows c dek kind t plain) ∧
    ∀ plain text, pending = some (plain, text) →
      Knows c dek kind t plain ∧ decryptUnder c dek text (kind.aad plain.name) = .ok plain.plaintext
  | _ => True

structure TableInv (c : Crypto Key) (dek : Key) (kind : TableKind) (t : SecretTable Extra) :
    Prop extends Faithful c dek kind t where
  names : ∀ row ∈ t.rows, ∀ row' ∈ t.rows, row.name = row'.name → row = row'
  ids : ∀ row ∈ t.rows, row.id ≤ t.lastId
  numbers : ∀ row ∈ t.rows, ∀ row' ∈ t.rows, row.id = row'.id → row = row'
  tasks : ∀ n, TaskOk c dek kind t (t.tasks n)

/-- A row comes from a row with its number, its name and, where a name is not stored again, its
value. -/
def ComesFrom (c : Crypto Key) (dek : Key) (kind : TableKind) (t : SecretTable Extra)
    (row' : SecretRow Extra) : Prop :=
  ∃ row ∈ t.rows, row.id = row'.id ∧ row.name = row'.name ∧ (kind.upsert = false →
    decryptValue c kind (some dek) row' = decryptValue c kind (some dek) row)

variable {t : SecretTable Extra}

theorem ComesFrom.of_mem {row : SecretRow Extra} (h : row ∈ t.rows) :
    ComesFrom c dek kind t row := ⟨row, h, rfl, rfl, fun _ => rfl⟩

theorem TaskOk.mono {t' : SecretTable Extra} (hlast : t.lastId ≤ t'.lastId)
    (hrows : ∀ row' ∈ t'.rows, row'.id ≤ t.lastId → ComesFrom c dek kind t row') {task : Task Extra}
    (h : TaskOk c dek kind t task) : TaskOk c dek kind t' task := by
  have hknows : ∀ plain, Knows c dek kind t plain → Knows c dek kind t' plain := by
    rintro plain ⟨hle, hplain⟩
    refine ⟨hle.trans hlast, fun row' hrow' hid => ?_⟩
    obtain ⟨row, hrow, hid', hname', hvalue⟩ := hrows row' hrow' (hid ▸ hle)
    obtain ⟨hname, hsame⟩ := hplain row hrow (hid'.trans hid)
    exact ⟨hname'.symm.trans hname, fun hinsert => (hvalue hinsert).trans (hsame hinsert)⟩
  cases task with
  | idle => trivial
  | write name value extra stage =>
    cases stage with
    | asked | encrypting => trivial
    | storing text encrypted =>
      cases encrypted with
      | true | false => exact h
  | migrate rows pending =>
    refine ⟨fun plain hplain => hknows plain (h.1 plain hplain), fun plain text hpending => ?_⟩
    obtain ⟨hplain, htext⟩ := h.2 plain text hpending
    exact ⟨hknows plain hplain, htext⟩

variable {text : String}

namespace TableInv

variable {t : SecretTable Extra}

theorem setTask (h : TableInv c dek kind t) (n : ℕ) {task : Task Extra}
    (htask : TaskOk c dek kind t task) : TableInv c dek kind (t.setTask n task) where
  __ := h
  tasks m := by
    have hmono : TaskOk c dek kind (t.setTask n task) (Function.update t.tasks n task m) := by
      refine TaskOk.mono (t := t) (le_refl _) (fun _ hrow _ => .of_mem hrow) ?_
      by_cases heq : m = n
      · subst heq
        rw [update_self]
        exact htask
      · rw [update_of_ne heq]
        exact h.tasks m
    exact hmono

theorem mapRows (h : TableInv c dek kind t) {f : SecretRow Extra → SecretRow Extra}
    (hid : ∀ row, (f row).id = row.id) (hname : ∀ row, (f row).name = row.name)
    {written : String → Option String}
    (hvalue : ∀ row ∈ t.rows, ∃ value, written row.name = some value ∧
      decryptValue c kind (some dek) (f row) = .ok value)
    (hpresent : ∀ name value, written name = some value → ∃ row ∈ t.rows, row.name = name)
    (hsame : kind.upsert = false → ∀ row ∈ t.rows,
      decryptValue c kind (some dek) (f row) = decryptValue c kind (some dek) row) :
    TableInv c dek kind { t with rows := t.rows.map f, written } where
  value := by
    refine forall_mem_map.mpr fun row hrow => ?_
    obtain ⟨value, hwritten, hdecrypt⟩ := hvalue row hrow
    exact ⟨value, (congrArg written (hname row)).trans hwritten, hdecrypt⟩
  present name value hwritten := by
    obtain ⟨row, hrow, rfl⟩ := hpresent name value hwritten
    exact ⟨f row, mem_map_of_mem hrow, hname row⟩
  names := by
    refine forall_mem_map.mpr fun row hrow => forall_mem_map.mpr fun row' hrow' heq => ?_
    rw [hname, hname] at heq
    rw [h.names row hrow row' hrow' heq]
  ids := by
    refine forall_mem_map.mpr fun row hrow => ?_
    rw [hid]
    exact h.ids row hrow
  numbers := by
    refine forall_mem_map.mpr fun row hrow => forall_mem_map.mpr fun row' hrow' heq => ?_
    rw [hid, hid] at heq
    rw [h.numbers row hrow row' hrow' heq]
  tasks n := by
    refine TaskOk.mono ?_ ?_ (h.tasks n)
    · exact le_refl _
    · refine forall_mem_map.mpr fun row hrow _ => ?_
      exact ⟨row, hrow, (hid row).symm, (hname row).symm, fun hinsert => hsame hinsert row hrow⟩

theorem put (h : TableInv c dek kind t) {name value : String} {extra : Extra} {encrypted : Bool}
    (htext : ∀ id, decryptValue c kind (some dek) ⟨id, name, text, encrypted, extra⟩ = .ok value) :
    TableInv c dek kind (t.put kind name value extra text encrypted) := by
  unfold SecretTable.put
  split_ifs with hany hupsert
  · refine h.mapRows (fun row => ?_) (fun row => ?_) (fun row hrow => ?_) (fun name' value' h' => ?_)
      fun hinsert => absurd (hinsert.symm.trans hupsert) (by decide)
    · split_ifs <;> rfl
    · split_ifs <;> rfl
    · by_cases heq : row.name = name
      · refine ⟨value, ?_, ?_⟩
        · rw [heq, update_self]
        · rw [if_pos heq]
          subst heq
          exact htext row.id
      · rw [update_of_ne heq, if_neg heq]
        exact h.value row hrow
    · by_cases heq : name' = name
      · obtain ⟨row, hrow, hname⟩ := any_eq_true.mp hany
        exact ⟨row, hrow, (beq_iff_eq.mp hname).trans heq.symm⟩
      · rw [update_of_ne heq] at h'
        exact h.present name' value' h'
  · exact h
  · -- A new name gets a new number.
    have hnew : ∀ row ∈ t.rows, row.name ≠ name := by
      intro row hrow heq
      exact hany (any_eq_true.mpr ⟨row, hrow, beq_iff_eq.mpr heq⟩)
    constructor
    · constructor
      · refine forall_mem_append.mpr ⟨fun row hrow => ?_, forall_mem_singleton.mpr ?_⟩
        · dsimp only
          rw [update_of_ne (hnew row hrow)]
          exact h.value row hrow
        · exact ⟨value, update_self .., htext _⟩
      · intro name' value' h'
        by_cases heq : name' = name
        · exact ⟨_, mem_append_right _ mem_cons_self, heq.symm⟩
        · dsimp only at h'
          rw [update_of_ne heq] at h'
          obtain ⟨row, hrow, hname⟩ := h.present name' value' h'
          exact ⟨row, mem_append_left _ hrow, hname⟩
    · refine forall_mem_append.mpr ⟨fun row hrow => ?_, forall_mem_singleton.mpr ?_⟩
      · refine forall_mem_append.mpr ⟨h.names row hrow, forall_mem_singleton.mpr ?_⟩
        exact fun heq => absurd heq (hnew row hrow)
      · refine forall_mem_append.mpr ⟨fun row' hrow' heq => ?_, forall_mem_singleton.mpr ?_⟩
        · exact absurd heq.symm (hnew row' hrow')
        · exact fun _ => rfl
    · refine forall_mem_append.mpr ⟨fun row hrow => ?_, forall_mem_singleton.mpr ?_⟩
      · exact (h.ids row hrow).trans (Nat.le_succ _)
      · exact le_refl _
    · have hlt : ∀ row ∈ t.rows, row.id ≠ t.lastId + 1 := by
        intro row hrow
        have hle := h.ids row hrow
        omega
      refine forall_mem_append.mpr ⟨fun row hrow => ?_, forall_mem_singleton.mpr ?_⟩
      · refine forall_mem_append.mpr ⟨h.numbers row hrow, forall_mem_singleton.mpr ?_⟩
        exact fun heq => absurd heq (hlt row hrow)
      · refine forall_mem_append.mpr ⟨fun row' hrow' heq => ?_, forall_mem_singleton.mpr ?_⟩
        · exact absurd heq.symm (hlt row' hrow')
        · exact fun _ => rfl
    · refine fun n => (h.tasks n).mono (Nat.le_succ _) (forall_mem_append.mpr
        ⟨fun _ hrow _ => .of_mem hrow, forall_mem_singleton.mpr fun hle => ?_⟩)
      exact absurd hle (Nat.not_succ_le_self _)

theorem deleteRow (h : TableInv c dek kind t) (id : ℕ) :
    TableInv c dek kind (t.deleteRow id) where
  value row hrow := by
    obtain ⟨hrow, hne⟩ := mem_filter.mp hrow
    obtain ⟨value, hwritten, hdecrypt⟩ := h.value row hrow
    refine ⟨value, ?_, hdecrypt⟩
    show (if _ then none else _) = _
    rw [if_neg, hwritten]
    intro hany
    obtain ⟨row', hrow', heq⟩ := any_eq_true.mp hany
    rw [Bool.and_eq_true, beq_iff_eq, beq_iff_eq] at heq
    rw [h.names row' hrow' row hrow heq.2] at heq
    exact absurd heq.1 (of_decide_eq_true hne)
  present name value hwritten := by
    have hwritten' : (if t.rows.any (fun row => row.id == id && row.name == name) then none
        else t.written name) = some value := hwritten
    split_ifs at hwritten' with hany
    obtain ⟨row, hrow, rfl⟩ := h.present name value hwritten'
    refine ⟨row, mem_filter.mpr ⟨hrow, decide_eq_true fun hid => hany ?_⟩, rfl⟩
    refine any_eq_true.mpr ⟨row, hrow, ?_⟩
    rw [Bool.and_eq_true, beq_iff_eq, beq_iff_eq]
    exact ⟨hid, rfl⟩
  names row hrow row' hrow' :=
    h.names row (mem_of_mem_filter hrow) row' (mem_of_mem_filter hrow')
  ids row hrow := h.ids row (mem_of_mem_filter hrow)
  numbers row hrow row' hrow' :=
    h.numbers row (mem_of_mem_filter hrow) row' (mem_of_mem_filter hrow')
  tasks n := by
    refine TaskOk.mono ?_ ?_ (h.tasks n)
    · exact le_refl _
    · exact fun _ hrow _ => .of_mem (mem_of_mem_filter hrow)

theorem updateExtra (h : TableInv c dek kind t) (id : ℕ) (extra : Extra) :
    TableInv c dek kind (t.updateExtra id extra) := by
  have hsame : ∀ row, decryptValue c kind (some dek)
      (if row.id = id then { row with extra } else row) = decryptValue c kind (some dek) row := by
    intro row
    split_ifs <;> rfl
  refine h.mapRows (fun row => ?_) (fun row => ?_) (fun row hrow => ?_) h.present
    fun _ row _ => hsame row
  · split_ifs <;> rfl
  · split_ifs <;> rfl
  · obtain ⟨value, hwritten, hdecrypt⟩ := h.value row hrow
    exact ⟨value, hwritten, (hsame row).trans hdecrypt⟩

theorem overwrite (h : TableInv c dek kind t) {plain : PlainRow} (hknows : Knows c dek kind t plain)
    (htext : decryptUnder c dek text (kind.aad plain.name) = .ok plain.plaintext)
    (hsame : ∀ row ∈ t.rows, row.id = plain.id →
      decryptValue c kind (some dek) row = .ok plain.plaintext) :
    TableInv c dek kind (t.overwrite plain.id text) := by
  have hvalue : ∀ row ∈ t.rows, decryptValue c kind (some dek)
      (if row.id = plain.id then { row with value := text, encrypted := true } else row) =
        decryptValue c kind (some dek) row := by
    intro row hrow
    split_ifs with hid
    · rw [hsame row hrow hid, ← htext, ← (hknows.2 row hrow hid).1]
      rfl
    · rfl
  refine h.mapRows (fun row => ?_) (fun row => ?_) (fun row hrow => ?_) h.present
    fun _ => hvalue
  · split_ifs <;> rfl
  · split_ifs <;> rfl
  · obtain ⟨value, hwritten, hdecrypt⟩ := h.value row hrow
    exact ⟨value, hwritten, (hvalue row hrow).trans hdecrypt⟩

end TableInv

/-! ## Steps -/

/-- A migration overwrites a row that still has the value that it read. -/
def Undisturbed (c : Crypto Key) (dek : Key) (kind : TableKind) (t : SecretTable Extra) :
    TableAction Extra → Prop
  | .updateRow n => ∀ rows plain text, t.tasks n = .migrate rows (some (plain, text)) →
    ∀ row ∈ t.rows, row.id = plain.id →
      decryptValue c kind (some dek) row = .ok plain.plaintext
  | _ => True

theorem knows_plainRows (h : TableInv c dek kind t) :
    ∀ plain ∈ t.plainRows, Knows c dek kind t plain := by
  refine forall_mem_map.mpr fun row hfilter => ?_
  obtain ⟨hrow, hplain⟩ := mem_filter.mp hfilter
  refine ⟨h.ids row hrow, fun row' hrow' hid => ?_⟩
  rw [h.numbers row' hrow' row hrow hid]
  refine ⟨rfl, fun _ => if_neg ?_⟩
  rw [(Bool.not_eq_true' _).mp hplain]
  decide

theorem encrypted_ok (hc : c.Ideal) {memory : Option Key} (hmemory : ∀ k, memory = some k → k = dek)
    {nonce : Bytes} {value aad : String}
    (h : (memory.elim (.error .sealed) fun k => encryptUnder c k nonce value aad) = .ok text) :
    decryptUnder c dek text aad = .ok value := by
  cases memory with
  | none => cases h
  | some k =>
    rw [← hmemory k rfl]
    exact decryptUnder_encryptUnder hc h

theorem TableInv.step (h : TableInv c dek kind t) (hc : c.Ideal) {memory : Option Key}
    (hmemory : ∀ k, memory = some k → k = dek) {action : TableAction Extra}
    (haction : kind.upsert = true → Undisturbed c dek kind t action) :
    TableInv c dek kind (t.step c kind memory action) := by
  cases action with
  | begin n name value extra =>
    unfold SecretTable.step
    dsimp only
    split
    · exact h.setTask n trivial
    · exact h
  | check n enabled =>
    unfold SecretTable.step
    dsimp only
    split
    · refine h.setTask n ?_
      split_ifs
      · trivial
      · exact rfl
    · exact h
  | encrypt n nonce =>
    unfold SecretTable.step
    dsimp only
    split
    · split
      · rename_i htext
        exact h.setTask n (encrypted_ok hc hmemory htext)
      · exact h.setTask n trivial
    · exact h
  | store n =>
    unfold SecretTable.step
    dsimp only
    split
    · rename_i name value extra text encrypted htask
      have hok := h.tasks n
      rw [htask] at hok
      refine (h.put fun id => ?_).setTask n trivial
      cases encrypted with
      | true => exact hok
      | false => exact congrArg Except.ok hok
    · exact h
  | select n =>
    unfold SecretTable.step
    dsimp only
    split
    · exact h.setTask n ⟨knows_plainRows h, fun _ _ hpending => (nomatch hpending)⟩
    · exact h
  | encryptRow n nonce =>
    unfold SecretTable.step
    dsimp only
    split
    · rename_i row rows htask
      have hok := h.tasks n
      rw [htask] at hok
      split
      · rename_i text htext
        refine h.setTask n ⟨fun plain hplain => hok.1 plain (mem_cons_of_mem _ hplain), ?_⟩
        rintro plain text' ⟨⟩
        exact ⟨hok.1 row mem_cons_self, encrypted_ok hc hmemory htext⟩
      · exact h.setTask n trivial
    · exact h
  | updateRow n =>
    unfold SecretTable.step
    dsimp only
    split
    · rename_i rows plain text htask
      have hok := h.tasks n
      rw [htask] at hok
      obtain ⟨hknows, htext⟩ := hok.2 plain text rfl
      have hsame : ∀ row ∈ t.rows, row.id = plain.id →
          decryptValue c kind (some dek) row = .ok plain.plaintext := by
        cases hupsert : kind.upsert with
        | true => exact haction hupsert rows plain text htask
        | false => exact fun row hrow hid => (hknows.2 row hrow hid).2 hupsert
      have hinv := h.overwrite hknows htext hsame
      have hrest := hinv.tasks n
      rw [show (t.overwrite plain.id text).tasks n = _ from htask] at hrest
      exact hinv.setTask n ⟨hrest.1, fun _ _ hpending => (nomatch hpending)⟩
    · exact h
  | drop n => exact h.setTask n trivial
  | setExtra id extra => exact h.updateExtra id extra
  | delete id => exact h.deleteRow id

theorem faithful_overwrite_iff (h : TableInv c dek kind t) {plain : PlainRow}
    (hknows : Knows c dek kind t plain)
    (htext : decryptUnder c dek text (kind.aad plain.name) = .ok plain.plaintext) :
    Faithful c dek kind (t.overwrite plain.id text) ↔ ∀ row ∈ t.rows, row.id = plain.id →
      decryptValue c kind (some dek) row = .ok plain.plaintext := by
  constructor
  · intro hfaithful row hrow hid
    obtain ⟨value, hwritten, hdecrypt⟩ := h.value row hrow
    obtain ⟨value', hwritten', hdecrypt'⟩ := hfaithful.value _ (mem_map_of_mem hrow)
    rw [if_pos hid] at hwritten' hdecrypt'
    have htext' : decryptUnder c dek text (kind.aad row.name) = .ok value' := hdecrypt'
    rw [(hknows.2 row hrow hid).1, htext] at htext'
    have hsame : some value = some value' := hwritten.symm.trans hwritten'
    cases hsame
    cases htext'
    exact hdecrypt
  · exact fun hsame => (h.overwrite hknows htext hsame).toFaithful

/-! ## Runs -/

def SecretTable.empty (Extra : Type) : SecretTable Extra where
  rows := []
  lastId := 0
  tasks := fun _ => .idle
  written := fun _ => none

def Store.empty (Key : Type) : Store Key where
  memory := none
  env := .empty EnvFlags
  ssh := .empty SshInfo

/-- The store after some actions. -/
def Store.after (c : Crypto Key) (dek : Key) (actions : List Action) : Store Key :=
  actions.foldl (fun s action => s.step c dek action) (.empty Key)

/-- An action on the variables meets the condition; the other table needs none. -/
def Action.Undisturbed (c : Crypto Key) (dek : Key) (s : Store Key) : Action → Prop
  | .env action => Secrets.Undisturbed c dek envKind s.env action
  | _ => True

/-- Every action of a run meets the condition. -/
def RunUndisturbed (c : Crypto Key) (dek : Key) (actions : List Action) : Prop :=
  ∀ before action after, actions = before ++ action :: after →
    action.Undisturbed c dek (.after c dek before)

/-- An action that does not overwrite a variable by its number. -/
def Action.isQuiet : Action → Bool
  | .env (.updateRow _) => false
  | _ => true

variable {s : Store Key} {action : Action}

theorem Action.undisturbed_of_isQuiet (h : action.isQuiet = true) : action.Undisturbed c dek s := by
  cases action with
  | sealVault | unsealVault | ssh action => trivial
  | env action =>
    cases action with
    | updateRow n => cases h
    | _ => trivial

variable {actions : List Action}

theorem runUndisturbed_of_isQuiet (h : ∀ action ∈ actions, action.isQuiet = true) :
    RunUndisturbed c dek actions := by
  rintro before action after rfl
  exact Action.undisturbed_of_isQuiet
    (h action (mem_append_right _ mem_cons_self))

theorem runUndisturbed_concat (h : RunUndisturbed c dek actions)
    (haction : action.Undisturbed c dek (.after c dek actions)) :
    RunUndisturbed c dek (actions ++ [action]) := by
  intro before action' after heq
  rcases eq_nil_or_concat after with rfl | ⟨after, last, rfl⟩
  · obtain ⟨rfl, hlast⟩ := append_inj' heq rfl
    cases hlast
    exact haction
  · rw [concat_eq_append, ← cons_append, ← append_assoc] at heq
    obtain ⟨rfl, -⟩ := append_inj' heq rfl
    exact h before action' after rfl

structure StoreInv (c : Crypto Key) (dek : Key) (s : Store Key) : Prop where
  memory : ∀ k, s.memory = some k → k = dek
  env : TableInv c dek envKind s.env
  ssh : TableInv c dek sshKind s.ssh

theorem tableInv_empty : TableInv c dek kind (.empty Extra) where
  value _ h := absurd h not_mem_nil
  present _ _ h := nomatch h
  names _ h := absurd h not_mem_nil
  ids _ h := absurd h not_mem_nil
  numbers _ h := absurd h not_mem_nil
  tasks _ := trivial

theorem StoreInv.step (h : StoreInv c dek s) (hc : c.Ideal) (haction : action.Undisturbed c dek s) :
    StoreInv c dek (s.step c dek action) := by
  cases action with
  | sealVault => exact ⟨fun _ hk => (nomatch hk), h.env, h.ssh⟩
  | unsealVault => exact ⟨fun _ hk => (Option.some.inj hk).symm, h.env, h.ssh⟩
  | env action => exact ⟨h.memory, h.env.step hc h.memory fun _ => haction, h.ssh⟩
  | ssh action => exact ⟨h.memory, h.env, h.ssh.step hc h.memory fun hupsert => (nomatch hupsert)⟩

theorem storeInv_after (hc : c.Ideal) (h : RunUndisturbed c dek actions) :
    StoreInv c dek (.after c dek actions) := by
  induction actions using List.reverseRecOn with
  | nil => exact ⟨fun _ hk => (nomatch hk), tableInv_empty, tableInv_empty⟩
  | append_singleton actions action ih =>
    have hinv := ih fun before action' after heq =>
      h before action' (after ++ [action]) (by rw [heq]; simp)
    have hafter : Store.after c dek (actions ++ [action]) =
        (Store.after c dek actions).step c dek action := foldl_append
    rw [hafter]
    exact hinv.step hc (h actions action [] rfl)

/-- What is read while the vault is unsealed. -/
structure SecretsReadable (c : Crypto Key) (dek : Key) (s : Store Key) : Prop where
  env : Faithful c dek envKind s.env
  ssh : Faithful c dek sshKind s.ssh
  enabled : s.memory ≠ none → ∃ values, s.getEnabledEnvValues c = .ok values ∧
    ∀ key value, (key, value) ∈ values ↔ s.env.written key = some value ∧
      ∃ row ∈ s.env.rows, row.name = key ∧ row.extra.enabled = true
  privateKeys : s.memory ≠ none → ∀ row ∈ s.ssh.rows, ∃ value,
    s.ssh.written row.name = some value ∧ s.getSshPrivateKey c row.id = .ok (some value)

theorem enabled_values (h : StoreInv c dek s) (hmemory : s.memory = some dek) :
    ∃ values, s.getEnabledEnvValues c = .ok values ∧
      ∀ key value, (key, value) ∈ values ↔ s.env.written key = some value ∧
        ∃ row ∈ s.env.rows, row.name = key ∧ row.extra.enabled = true := by
  unfold Store.getEnabledEnvValues
  rw [hmemory]
  generalize hsorted : (s.env.rows.filter fun row => row.extra.enabled).insertionSort
    (fun row row' => row.name ≤ row'.name) = rows
  have hmem : ∀ row, row ∈ rows ↔ row ∈ s.env.rows ∧ row.extra.enabled = true := by
    intro row
    rw [← hsorted, (perm_insertionSort _ _).mem_iff, mem_filter]
  have hvalue : ∀ row ∈ rows, ∃ value, s.env.written row.name = some value ∧
      decryptValue c envKind (some dek) row = .ok value :=
    fun row hrow => h.env.value row ((hmem row).mp hrow).1
  have hread : ∀ (row : SecretRow EnvFlags) (value : String),
      decryptValue c envKind (some dek) row = .ok value → (do
      let value ← decryptValue c envKind (some dek) row
      return (row.name, value) : Except VaultError (String × String)) = .ok (row.name, value) := by
    intro row value hdecrypt
    rw [hdecrypt]
    rfl
  obtain ⟨values, hvalues⟩ := exists_mapM_eq_ok (l := rows) fun row hrow => by
    obtain ⟨value, -, hdecrypt⟩ := hvalue row hrow
    exact ⟨_, hread row value hdecrypt⟩
  have hforall := forall₂_of_mapM_eq_ok hvalues
  refine ⟨values, hvalues, fun key value => ⟨fun hin => ?_, ?_⟩⟩
  · obtain ⟨row, hrow, hpair⟩ := exists_left_of_forall₂ hforall hin
    obtain ⟨value', hwritten, hdecrypt⟩ := hvalue row hrow
    rw [hread row value' hdecrypt] at hpair
    cases hpair
    exact ⟨hwritten, row, ((hmem row).mp hrow).1, rfl, ((hmem row).mp hrow).2⟩
  · rintro ⟨hwritten, row, hrow, rfl, henabled⟩
    obtain ⟨pair, hpair, heq⟩ := exists_right_of_forall₂ hforall ((hmem row).mpr ⟨hrow, henabled⟩)
    obtain ⟨value', hwritten', hdecrypt⟩ := h.env.value row hrow
    rw [hread row value' hdecrypt] at heq
    cases heq
    rw [hwritten] at hwritten'
    cases hwritten'
    exact hpair

theorem private_keys (h : StoreInv c dek s) (hmemory : s.memory = some dek) :
    ∀ row ∈ s.ssh.rows, ∃ value, s.ssh.written row.name = some value ∧
      s.getSshPrivateKey c row.id = .ok (some value) := by
  intro row hrow
  obtain ⟨value, hwritten, hdecrypt⟩ := h.ssh.value row hrow
  refine ⟨value, hwritten, ?_⟩
  have hfind : (s.ssh.rows.find? fun row' => row'.id == row.id) = some row := by
    obtain ⟨row', hrow'⟩ := Option.isSome_iff_exists.mp
      (List.find?_isSome (p := fun row' => row'.id == row.id).mpr
        ⟨row, hrow, beq_self_eq_true row.id⟩)
    have hid := List.find?_some hrow'
    rw [hrow', h.ssh.numbers row' (mem_of_find?_eq_some hrow') row hrow (beq_iff_eq.mp hid)]
  unfold Store.getSshPrivateKey
  rw [hfind, hmemory]
  show (decryptValue c sshKind (some dek) row >>= fun value => pure (some value)) = _
  rw [hdecrypt]
  rfl

/-- **Encrypting stored secrets does not change them.**  After any actions, of any number of tasks
that may end at any time, the values that are read are those that were last written, if no
migration overwrote a value that had been replaced since it was read. -/
theorem secrets_faithful (c : Crypto Key) (hc : c.Ideal) (dek : Key) (actions : List Action)
    (h : RunUndisturbed c dek actions) : SecretsReadable c dek (.after c dek actions) := by
  have hinv := storeInv_after hc h
  have hmemory : (Store.after c dek actions).memory ≠ none →
      (Store.after c dek actions).memory = some dek := by
    intro hne
    obtain ⟨k, hk⟩ := Option.ne_none_iff_exists'.mp hne
    rw [hk, hinv.memory k hk]
  exact ⟨hinv.env.toFaithful, hinv.ssh.toFaithful, fun hne => enabled_values hinv (hmemory hne),
    fun hne => private_keys hinv (hmemory hne)⟩

/-- A variable is stored while the vault is sealed and encrypted later. -/
def migrated : List Action :=
  [.env (.begin 0 "KEY" "old" ⟨true, true⟩), .env (.check 0 true), .env (.store 0), .unsealVault,
    .env (.select 1), .env (.encryptRow 1 [5]), .env (.updateRow 1)]

theorem secrets_faithful_migrated :
    (Store.after Clear.crypto [7] migrated).env.rows.map (fun row => row.encrypted) = [true] ∧
      SecretsReadable Clear.crypto [7] (.after Clear.crypto [7] migrated) := by
  refine ⟨by decide, secrets_faithful Clear.crypto Clear.ideal [7] migrated ?_⟩
  show RunUndisturbed _ _ (migrated.dropLast ++ [_])
  refine runUndisturbed_concat (runUndisturbed_of_isQuiet (by decide)) ?_
  intro rows plain text htask row hrow hid
  cases htask
  rw [List.mem_singleton.mp hrow]
  rfl

/-- The variable is set again between the read and the overwrite of the migration. -/
def disturbed : List Action :=
  [.env (.begin 0 "KEY" "old" ⟨true, true⟩), .env (.check 0 true), .env (.store 0), .unsealVault,
    .env (.select 1), .env (.begin 0 "KEY" "new" ⟨true, true⟩), .env (.check 0 true),
    .env (.encrypt 0 [6]), .env (.store 0), .env (.encryptRow 1 [5]), .env (.updateRow 1)]

theorem migration_loses_update :
    (Store.after Clear.crypto [7] disturbed).env.written "KEY" = some "new" ∧
      (Store.after Clear.crypto [7] disturbed).getEnabledEnvValues Clear.crypto =
        .ok [("KEY", "old")] := by
  constructor
  · decide
  · decide

end Chelix.Secrets
