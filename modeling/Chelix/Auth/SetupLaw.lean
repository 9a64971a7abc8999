import Chelix.Auth.SetupFlags
import Chelix.Library.Debts

/-!
# What the setup flags say

An operation that has changed the tables or one of the flags owes the rest of its writes.  As long
as it is not cut off before it has made them, and no other operation comes between what it reads or
changes and what it stores, the flags say what the tables hold whenever nobody owes anything.

* **`setup_never_opens`**: every run of such steps.
-/

namespace Chelix.Auth

open Chelix.Library

variable {phase : SetupPhase}

namespace SetupPhase

/-- The operation has changed the credentials and not stored the setup flag since. -/
def owesSetup : SetupPhase → Bool
  | .marking changed => changed
  | .markingKeys changed _ => changed
  | .recomputing changed => changed
  | .recomputingKeys changed => changed
  | .storingSetup _ _ changed _ => changed
  | .unsealing => true
  | .resettingSessions => true
  | .resettingPasskeys => true
  | .resettingOthers => true
  | _ => false

/-- The operation has changed one of the two disabled flags, and the other is to follow. -/
def owesStored : SetupPhase → Bool
  | .unsealing => true
  | .storingSetup _ (some _) _ inTransaction => inTransaction
  | .storingDisabled _ inTransaction => inTransaction
  | .persisting _ => true
  | _ => false

/-- The operation has changed the disabled flag and is not complete. -/
def owesReset : SetupPhase → Bool
  | .persisting _ => true
  | .configuring _ => true
  | _ => false

/-- The operation is to complete a reset. -/
def completes : SetupPhase → Bool
  | .configuring value => value
  | _ => false

theorem completes_eq_false (h : phase ≠ .configuring true) :
    phase.completes = false := by
  cases phase with
  | configuring value => exact Bool.eq_false_of_not_eq_true fun htrue => h (congrArg _ htrue)
  | _ => rfl

/-- The operation has changed nothing that it has still to follow up. -/
def owesNothing (phase : SetupPhase) : Bool :=
  !phase.owesSetup && !phase.owesStored && !phase.owesReset

/-- From its change or its look at the credentials to the store of the setup flag: an operation that
only adds a credential, or finds one (`true`), or one that may remove one (`false`). -/
def pending : SetupPhase → Option Bool
  | .marking _ | .markingKeys _ _ | .unsealing => some true
  | .recomputing _ | .recomputingKeys _ | .resettingSessions | .resettingPasskeys
  | .resettingOthers => some false
  | .storingSetup _ decides _ _ => some (decides = some false)
  | .idle | .settingInitial | .adding | .storingDisabled _ _ | .persisting _ | .configuring _
  | .changing => none

/-- From its first write of a disabled flag to its completion: the value of the flag. -/
def deciding : SetupPhase → Option Bool
  | .unsealing => some false
  | .storingSetup _ decides _ inTransaction => if inTransaction then decides else none
  | .storingDisabled value inTransaction => if inTransaction then some value else none
  | .persisting value | .configuring value => some value
  | .idle | .settingInitial | .adding | .marking _ | .markingKeys _ _ | .recomputing _
  | .recomputingKeys _ | .resettingSessions | .resettingPasskeys | .resettingOthers | .changing =>
    none

end SetupPhase

open SetupPhase

/-- A credential is added or looked for while no other operation may remove one, and one that may
remove or miss one begins while no other is pending; a disabled flag is written while no other
operation writes the other value.  An operation ends early where it owes nothing, and the process
does not restart between the stored flag of a reset and its completion. -/
def Apart (s : SetupRun) : SetupEvent → Prop
  | .insertPassword client _ | .storePasskey client _ | .mark client =>
    ∀ other, other ≠ client → (s.phase other).pending ≠ some false
  | .prepareVault client _ => ∀ other, other ≠ client →
      (s.phase other).pending ≠ some false ∧ (s.phase other).deciding ≠ some true
  | .removePasskey client _ | .recompute client | .reset client =>
    ∀ other, other ≠ client → (s.phase other).pending = none
  | .storeDisabled client => ∀ value, s.phase client = .storingDisabled value false →
      ∀ other, other ≠ client → (s.phase other).deciding ≠ some !value
  | .fail client => (s.phase client).owesNothing = true
  | .restart => ∀ client, s.phase client ≠ .configuring true
  | .setInitial _ | .add _ | .unsealVault _ | .readPassword _ | .readPasskeys _ | .checkPassword _
  | .updatePassword _ _ | .resetNext _ | .storeSetup _ | .persist _ | .configure _ => True

/-! ## What an operation knows -/

/-- What an operation that stands in some phase knows of the tables and the flags. -/
def SetupPhase.Known (store : SetupStore) : SetupPhase → Prop
  | .markingKeys _ hasPassword => hasPassword = true → store.hasCredential = true
  | .recomputingKeys _ | .resettingSessions | .resettingPasskeys => store.hasPassword = false
  | .resettingOthers => store.hasCredential = false
  | .unsealing => store.hasCredential = true ∧ store.storedDisabled = false
  | .storingSetup value decides _ inTransaction =>
    value = store.hasCredential ∧ (decides = some false → value = true) ∧
    (inTransaction = true → decides = some store.storedDisabled)
  | .storingDisabled value inTransaction => inTransaction = true → store.storedDisabled = value
  | .persisting value => store.authDisabled = value
  | .configuring value => store.authDisabled = value ∧ store.storedDisabled = value
  | .idle | .settingInitial | .adding | .marking _ | .recomputing _ | .changing => True

/-- Two operations that may be pending at the same time. -/
def Compatible (a b : Option Bool) : Prop := (a = some false → b = none) ∧ (b = some false → a = none)

theorem Compatible.symm {a b : Option Bool} (h : Compatible a b) : Compatible b a := ⟨h.2, h.1⟩

theorem Compatible.none (b : Option Bool) : Compatible none b := ⟨nofun, fun _ => rfl⟩

theorem Compatible.adds {b : Option Bool} (h : b ≠ some false) : Compatible (some true) b :=
  ⟨nofun, fun hb => absurd hb h⟩

/-- What the others write while an operation is in progress is what it knows already. -/
theorem SetupPhase.Known.frame {store store' : SetupStore} (h : phase.Known store)
    (hcredentials : phase.pending = none ∨ phase.pending = some true ∧ store'.hasCredential = true ∨
      store'.hasPassword = store.hasPassword ∧ store'.hasCredential = store.hasCredential)
    (hdisabled : ∀ value, phase.deciding = some value →
      (store'.authDisabled = store.authDisabled ∨ store'.authDisabled = value) ∧
      (store'.storedDisabled = store.storedDisabled ∨ store'.storedDisabled = value)) :
    phase.Known store' := by
  cases phase with
  | idle | settingInitial | adding | marking _ | recomputing _ | changing => trivial
  | markingKeys _ _ =>
    intro hpassword
    rcases hcredentials with hnone | ⟨-, hsome⟩ | ⟨-, hsame⟩
    · cases hnone
    · exact hsome
    · exact hsame.trans (h hpassword)
  | recomputingKeys _ | resettingSessions | resettingPasskeys =>
    rcases hcredentials with hnone | ⟨hadds, -⟩ | ⟨hsame, -⟩
    · cases hnone
    · cases hadds
    · exact hsame.trans h
  | resettingOthers =>
    rcases hcredentials with hnone | ⟨hadds, -⟩ | ⟨-, hsame⟩
    · cases hnone
    · cases hadds
    · exact hsame.trans h
  | unsealing =>
    refine ⟨?_, ((hdisabled false rfl).2).elim (fun hsame => hsame.trans h.2) id⟩
    rcases hcredentials with hnone | ⟨-, hsome⟩ | ⟨-, hsame⟩
    · cases hnone
    · exact hsome
    · exact hsame.trans h.1
  | storingSetup value decides changed inTransaction =>
    obtain ⟨hvalue, hadds, hstored⟩ := h
    refine ⟨?_, hadds, fun htransaction => ?_⟩
    · rcases hcredentials with hnone | ⟨hkind, hsome⟩ | ⟨-, hsame⟩
      · cases hnone
      · have hdecides : decides = some false := of_decide_eq_true (Option.some.inj hkind)
        rw [hadds hdecides, hsome]
      · rw [hvalue, hsame]
    · have hdecides := hstored htransaction
      have hdeciding : (SetupPhase.storingSetup value decides changed inTransaction).deciding =
          some store.storedDisabled := (if_pos htransaction).trans hdecides
      rw [hdecides, ((hdisabled _ hdeciding).2).elim id id]
  | storingDisabled value inTransaction =>
    intro htransaction
    have hdeciding : (SetupPhase.storingDisabled value inTransaction).deciding = some value :=
      if_pos htransaction
    exact ((hdisabled _ hdeciding).2).elim (fun hsame => hsame.trans (h htransaction)) id
  | persisting value => exact ((hdisabled value rfl).1).elim (fun hsame => hsame.trans h) id
  | configuring value =>
    exact ⟨((hdisabled value rfl).1).elim (fun hsame => hsame.trans h.1) id,
      ((hdisabled value rfl).2).elim (fun hsame => hsame.trans h.2) id⟩

/-- What every operation in progress knows is so, and no two of them are in each other's way. -/
structure SetupKnown (s : SetupRun) : Prop where
  known : ∀ client, (s.phase client).Known s.store
  apart : ∀ client other, client ≠ other →
    Compatible (s.phase client).pending (s.phase other).pending
  agree : ∀ client other value value', (s.phase client).deciding = some value →
    (s.phase other).deciding = some value' → value = value'

variable {store : SetupStore} {client : ℕ}

namespace SetupKnown

variable {s : SetupRun}

theorem start (store : SetupStore) : SetupKnown (.start store) where
  known _ := trivial
  apart _ _ _ := .none _
  agree _ _ _ _ h := nomatch h

theorem move (h : SetupKnown s) (hknown : phase.Known store)
    (hothers : ∀ other, other ≠ client → (s.phase other).Known s.store →
      (s.phase other).Known store)
    (hapart : ∀ other, other ≠ client → Compatible phase.pending (s.phase other).pending)
    (hagree : ∀ value, phase.deciding = some value → ∀ other, other ≠ client →
      (s.phase other).deciding ≠ some !value) :
    SetupKnown ((s.setStore store).setPhase client phase) := by
  have hself : ((s.setStore store).setPhase client phase).phase client = phase :=
    Function.update_self ..
  have hother : ∀ other, other ≠ client →
      ((s.setStore store).setPhase client phase).phase other = s.phase other :=
    fun other hne => Function.update_of_ne hne ..
  have hdifferent : ∀ {value value' : Bool}, some value' ≠ some !value → value = value' := by
    intro value value' hne
    cases value <;> cases value' <;> simp at hne ⊢
  refine ⟨fun other => ?_, fun first second hne => ?_, fun first second value value' h₁ h₂ => ?_⟩
  · by_cases heq : other = client
    · subst heq
      rw [hself]
      exact hknown
    · rw [hother other heq]
      exact hothers other heq (h.known other)
  · by_cases heq : first = client
    · subst heq
      rw [hself, hother second hne.symm]
      exact hapart second hne.symm
    · rw [hother first heq]
      by_cases heq' : second = client
      · subst heq'
        rw [hself]
        exact (hapart first heq).symm
      · rw [hother second heq']
        exact h.apart first second hne
  · by_cases heq : first = client
    · subst heq
      rw [hself] at h₁
      by_cases heq' : second = first
      · subst heq'
        rw [hself, h₁] at h₂
        exact Option.some.inj h₂
      · rw [hother second heq'] at h₂
        exact hdifferent (h₂ ▸ hagree value h₁ second heq')
    · rw [hother first heq] at h₁
      by_cases heq' : second = client
      · subst heq'
        rw [hself] at h₂
        exact (hdifferent (h₁ ▸ hagree value' h₂ first heq)).symm
      · rw [hother second heq'] at h₂
        exact h.agree first second value value' h₁ h₂

theorem apart_of_same (h : SetupKnown s) {old phase : SetupPhase} (hphase : s.phase client = old)
    (hsame : phase.pending = none ∨ phase.pending = old.pending) (other : ℕ) (hne : other ≠ client) :
    Compatible phase.pending (s.phase other).pending := by
  rcases hsame with hnone | hsame
  · rw [hnone]
    exact .none _
  · rw [hsame, ← hphase]
    exact h.apart client other hne.symm

theorem agree_of_same (h : SetupKnown s) {old phase : SetupPhase} (hphase : s.phase client = old)
    (hsame : phase.deciding = none ∨ phase.deciding = old.deciding) (value : Bool)
    (hvalue : phase.deciding = some value) (other : ℕ) (_ : other ≠ client) :
    (s.phase other).deciding ≠ some !value := by
  intro hother
  rcases hsame with hnone | hsame
  · rw [hnone] at hvalue
    cases hvalue
  · rw [hsame, ← hphase] at hvalue
    have heq := h.agree client other value _ hvalue hother
    cases value <;> cases heq

theorem goOn (h : SetupKnown s) {old phase : SetupPhase}
    (hphase : s.phase client = old) (hknown : phase.Known s.store)
    (hapart : phase.pending = none ∨ phase.pending = old.pending)
    (hagree : phase.deciding = none ∨ phase.deciding = old.deciding) :
    SetupKnown (s.setPhase client phase) :=
  have hstore : (s.setStore s.store).setPhase client phase = s.setPhase client phase := rfl
  hstore ▸ h.move hknown (fun _ _ h => h) (h.apart_of_same hphase hapart)
    (h.agree_of_same hphase hagree)

theorem adds (h : SetupKnown s)
    (hsome : store.hasCredential = true) (hauth : store.authDisabled = s.store.authDisabled)
    (hstored : store.storedDisabled = s.store.storedDisabled) (hknown : phase.Known store)
    (hpending : phase.pending = some true) (hdeciding : phase.deciding = none)
    (hapart : ∀ other, other ≠ client → (s.phase other).pending ≠ some false) :
    SetupKnown ((s.setStore store).setPhase client phase) := by
  refine h.move hknown (fun other hne hk => hk.frame ?_ fun _ _ => ⟨.inl hauth, .inl hstored⟩)
    (fun other hne => ?_) (fun value hvalue => ?_)
  · cases hkind : (s.phase other).pending with
    | none => exact .inl rfl
    | some kind =>
      cases kind with
      | false => exact absurd hkind (hapart other hne)
      | true => exact .inr (.inl ⟨rfl, hsome⟩)
  · rw [hpending]
    exact .adds (hapart other hne)
  · rw [hdeciding] at hvalue
    cases hvalue

/-- A client removes credentials or begins to look for them, and no other operation is pending. -/
theorem removes (h : SetupKnown s) (hauth : store.authDisabled = s.store.authDisabled)
    (hstored : store.storedDisabled = s.store.storedDisabled) (hknown : phase.Known store)
    (hdeciding : phase.deciding = none)
    (hapart : ∀ other, other ≠ client → (s.phase other).pending = none) :
    SetupKnown ((s.setStore store).setPhase client phase) := by
  refine h.move hknown
    (fun other hne hk => hk.frame (.inl (hapart other hne)) fun _ _ => ⟨.inl hauth, .inl hstored⟩)
    (fun other hne => ?_) (fun value hvalue => ?_)
  · rw [hapart other hne]
    exact (Compatible.none _).symm
  · rw [hdeciding] at hvalue
    cases hvalue

/-- **One step**, if it comes between nothing that others read or change and store. -/
theorem step (h : SetupKnown s) {t : SetupRun} {e : SetupEvent} (hstep : SetupStep s e t)
    (hapart : Apart s e) : SetupKnown t := by
  have hknown {client : ℕ} {phase : SetupPhase} (hphase : s.phase client = phase) :
      phase.Known s.store := hphase ▸ h.known client
  cases hstep with
  | setInitial hphase _ | add hphase _ | checkPassword hphase _ =>
    exact h.goOn hphase trivial (.inl rfl) (.inl rfl)
  | insertInitial hphase _ => exact h.adds rfl rfl rfl ⟨rfl, fun _ => rfl, nofun⟩ rfl rfl hapart
  | insertAdded hphase _ => exact h.adds rfl rfl rfl trivial rfl rfl hapart
  | storePasskey hphase _ =>
    refine h.adds ?_ rfl rfl trivial rfl rfl hapart
    simp [SetupStore.hasCredential, SetupStore.hasPasskeys]
  | mark hphase =>
    have hmove : SetupKnown ((s.setStore s.store).setPhase _ (.marking false)) :=
      h.move trivial (fun _ _ h => h) (fun other hne => .adds (hapart other hne)) nofun
    exact hmove
  | @prepareVault client hash hphase _ =>
    refine h.move ⟨rfl, rfl⟩ (fun other hne hk => hk.frame ?_ fun value hvalue => ?_)
      (fun other hne => .adds (hapart other hne).1) (fun value hvalue other hne => ?_)
    · cases hkind : (s.phase other).pending with
      | none => exact .inl rfl
      | some kind =>
        cases kind with
        | false => exact absurd hkind (hapart other hne).1
        | true => exact .inr (.inl ⟨rfl, rfl⟩)
    · cases value with
      | false => exact ⟨.inl rfl, .inr rfl⟩
      | true => exact absurd hvalue (hapart other hne).2
    · cases hvalue
      exact (hapart other hne).2
  | unsealVault hphase =>
    obtain ⟨hsome, hstored⟩ := hknown hphase
    exact h.goOn hphase ⟨hsome.symm, fun _ => rfl, fun _ => congrArg some hstored.symm⟩ (.inr rfl)
      (.inr rfl)
  | markPassword hphase =>
    refine h.goOn hphase (fun hpassword => ?_) (.inr rfl) (.inl rfl)
    rw [SetupStore.hasCredential, hpassword, Bool.true_or]
  | @markPasskeys client changed hasPassword hphase hsome =>
    have hcredential : s.store.hasCredential = true := by
      rcases Bool.or_eq_true _ _ ▸ hsome with hpassword | hpasskeys
      · exact hknown hphase hpassword
      · rw [SetupStore.hasCredential, hpasskeys, Bool.or_true]
    exact h.goOn hphase ⟨hcredential.symm, fun _ => rfl, nofun⟩ (.inr rfl) (.inl rfl)
  | removePasskey hphase => exact h.removes rfl rfl trivial rfl hapart
  | recompute hphase =>
    have hmove : SetupKnown ((s.setStore s.store).setPhase _ (.recomputing false)) :=
      h.removes rfl rfl trivial rfl hapart
    exact hmove
  | reset hphase => exact h.removes rfl rfl rfl rfl hapart
  | @recomputePassword client changed hphase =>
    cases hpassword : s.store.hasPassword with
    | false => exact h.goOn hphase hpassword (.inr rfl) (.inl rfl)
    | true =>
      refine h.goOn hphase ⟨?_, nofun, nofun⟩ (.inr rfl) (.inl rfl)
      rw [SetupStore.hasCredential, hpassword, Bool.true_or]
  | recomputePasskeys hphase =>
    have hpassword : s.store.hasPassword = false := hknown hphase
    refine h.goOn hphase ⟨?_, nofun, nofun⟩ (.inr rfl) (.inl rfl)
    rw [SetupStore.hasCredential, hpassword, Bool.false_or]
  | @updatePassword client hash hphase =>
    have hpassword : (s.store.password.map fun _ => hash).isSome = s.store.password.isSome :=
      Option.isSome_map
    refine h.move trivial (fun other _ hk => hk.frame (.inr (.inr ⟨hpassword, ?_⟩))
      fun _ _ => ⟨.inl rfl, .inl rfl⟩) (fun _ _ => .none _) nofun
    exact congrArg (· || s.store.hasPasskeys) hpassword
  | resetSessions hphase =>
    have hpassword : s.store.hasPassword = false := hknown hphase
    exact h.goOn hphase hpassword (.inr rfl) (.inl rfl)
  | @resetPasskeys client hphase =>
    have hpassword : s.store.hasPassword = false := hknown hphase
    refine h.removes rfl rfl ?_ rfl fun other hne => ?_
    · show (s.store.hasPassword || false) = false
      rw [hpassword]
      rfl
    · exact (h.apart client other hne.symm).1 (by rw [hphase]; rfl)
  | resetOthers hphase =>
    have hnone : s.store.hasCredential = false := hknown hphase
    exact h.goOn hphase ⟨hnone.symm, nofun, nofun⟩ (.inr rfl) (.inl rfl)
  | @storeSetup client value changed inTransaction decides hphase =>
    obtain ⟨-, -, hstored⟩ := hknown hphase
    have hframe (other : ℕ) (_ : other ≠ client) (hk : (s.phase other).Known s.store) :
        (s.phase other).Known { s.store with setupComplete := value } :=
      hk.frame (.inr (.inr ⟨rfl, rfl⟩)) fun _ _ => ⟨.inl rfl, .inl rfl⟩
    cases decides with
    | none => exact h.move trivial hframe (fun _ _ => .none _) nofun
    | some decided =>
      refine h.move (fun htransaction => (Option.some.inj (hstored htransaction)).symm) hframe
        (fun _ _ => .none _) (h.agree_of_same hphase (.inr ?_))
      rfl
  | @storeDisabled client value inTransaction hphase =>
    have halone : ∀ other, other ≠ client → (s.phase other).deciding ≠ some !value := by
      cases inTransaction with
      | false => exact hapart value hphase
      | true =>
        have hsame : (storingDisabled value true).deciding = some value := rfl
        exact h.agree_of_same hphase (.inr rfl) value hsame
    refine h.move ?_ (fun other hne hk => hk.frame (.inr (.inr ⟨rfl, rfl⟩)) fun value' hvalue => ?_)
      (fun _ _ => ?_) (fun value' hvalue other hne => ?_)
    · cases inTransaction with
      | false => exact rfl
      | true => exact ⟨rfl, hknown hphase rfl⟩
    · refine ⟨.inr ?_, .inl rfl⟩
      have hne' := halone other hne
      rw [hvalue] at hne'
      cases value <;> cases value' <;> simp at hne' ⊢
    · cases inTransaction <;> exact .none _
    · have heq : value = value' := by cases inTransaction <;> exact Option.some.inj hvalue
      exact heq ▸ halone other hne
  | @persist client value hphase =>
    have hsame : (persisting value).deciding = some value := rfl
    have halone := h.agree_of_same hphase (.inr rfl) value hsame
    refine h.move ⟨hknown hphase, rfl⟩ (fun other hne hk =>
      hk.frame (.inr (.inr ⟨rfl, rfl⟩)) fun value' hvalue => ?_) (fun _ _ => .none _)
      (fun value' hvalue => Option.some.inj hvalue ▸ halone)
    refine ⟨.inl rfl, .inr ?_⟩
    have hne' := halone other hne
    rw [hvalue] at hne'
    cases value <;> cases value' <;> simp at hne' ⊢
  | configure hphase =>
    have hidle : SetupKnown (s.setPhase _ .idle) := h.goOn hphase trivial (.inl rfl) (.inl rfl)
    exact ⟨hidle.known, hidle.apart, hidle.agree⟩
  | fail => exact h.goOn rfl trivial (.inl rfl) (.inl rfl)
  | restart => exact ⟨fun _ => trivial, fun _ _ _ => .none _, nofun⟩

end SetupKnown

/-! ## The flags -/

/-- The setup flag says whether a credential is stored, the disabled flag in memory is the stored
one, and authentication is disabled by a reset only; or some operation owes a write. -/
structure FlagsSettled (s : SetupRun) : Prop where
  setup : Settled (s.store.setupComplete = s.store.hasCredential) owesSetup s.phase
  stored : Settled (s.store.authDisabled = s.store.storedDisabled) owesStored s.phase
  reset : Settled (s.store.authDisabled = true → s.disabledByReset = true) owesReset s.phase
  /-- A stored disabled flag is that of a reset, complete or about to be. -/
  origin : Settled (s.store.storedDisabled = true → s.disabledByReset = true) completes s.phase

namespace FlagsSettled

variable {s : SetupRun}

theorem start (store : SetupStore) : FlagsSettled (.start store) where
  setup := .inl rfl
  stored := .inl rfl
  reset := .inl id
  origin := .inl id

theorem step (h : FlagsSettled s) (hknown : SetupKnown s) {t : SetupRun} {e : SetupEvent}
    (hstep : SetupStep s e t) (hapart : Apart s e) : FlagsSettled t := by
  have hknown {client : ℕ} {phase : SetupPhase} (hphase : s.phase client = phase) :
      phase.Known s.store := hphase ▸ hknown.known client
  cases hstep with
  | setInitial hphase _ | add hphase _ | mark hphase | recompute hphase | checkPassword hphase _ =>
    exact ⟨h.setup.update hphase nofun, h.stored.update hphase nofun,
      h.reset.update hphase nofun, h.origin.update hphase nofun⟩
  | insertInitial hphase _ | insertAdded hphase _ | storePasskey hphase _ | removePasskey hphase
  | reset hphase | resetPasskeys hphase | resetSessions hphase | resetOthers hphase =>
    exact ⟨.of_owes rfl, h.stored.update hphase nofun, h.reset.update hphase nofun,
      h.origin.update hphase nofun⟩
  | prepareVault hphase _ =>
    exact ⟨.of_owes rfl, .of_owes rfl, h.reset.update hphase nofun, .inl nofun⟩
  | unsealVault hphase =>
    exact ⟨.of_owes rfl, .of_owes rfl, h.reset.update hphase nofun,
      h.origin.update hphase nofun⟩
  | markPassword hphase | markPasskeys hphase _ | recomputePasskeys hphase =>
    exact ⟨h.setup.update hphase id, h.stored.update hphase nofun,
      h.reset.update hphase nofun, h.origin.update hphase nofun⟩
  | @recomputePassword client changed hphase =>
    cases s.store.hasPassword with
    | false | true =>
      exact ⟨h.setup.update hphase id, h.stored.update hphase nofun,
        h.reset.update hphase nofun, h.origin.update hphase nofun⟩
  | @updatePassword client hash hphase =>
    have hpassword : (s.store.password.map fun _ => hash).isSome = s.store.password.isSome :=
      Option.isSome_map
    have hsetup : Settled (s.store.setupComplete =
        ((s.store.password.map fun _ => hash).isSome || s.store.hasPasskeys)) owesSetup
        s.phase := by
      rw [hpassword]
      exact h.setup
    exact ⟨hsetup.update hphase nofun, h.stored.update hphase nofun,
      h.reset.update hphase nofun, h.origin.update hphase nofun⟩
  | @storeSetup client value changed inTransaction decides hphase =>
    cases decides with
    | none =>
      exact ⟨.inl (hknown hphase).1, h.stored.update hphase nofun, h.reset.update hphase nofun,
        h.origin.update hphase nofun⟩
    | some decided =>
      exact ⟨.inl (hknown hphase).1, h.stored.update hphase id, h.reset.update hphase nofun,
        h.origin.update hphase nofun⟩
  | @storeDisabled client value inTransaction hphase =>
    cases inTransaction with
    | false =>
      exact ⟨h.setup.update hphase nofun, .of_owes rfl, .of_owes rfl,
        h.origin.update hphase nofun⟩
    | true =>
      exact ⟨h.setup.update hphase nofun, .inl (hknown hphase rfl).symm, .of_owes rfl,
        h.origin.update hphase nofun⟩
  | @persist client value hphase =>
    refine ⟨h.setup.update hphase nofun, .inl (hknown hphase), .of_owes rfl, ?_⟩
    cases value with
    | false => exact .inl nofun
    | true => exact .of_owes rfl
  | configure hphase =>
    obtain ⟨hauth, hstored⟩ := hknown hphase
    exact ⟨h.setup.update hphase nofun, h.stored.update hphase nofun,
      .inl fun hdisabled => hauth.symm.trans hdisabled,
      .inl fun hdisabled => hstored.symm.trans hdisabled⟩
  | @fail client =>
    have hopen : ((s.phase client).owesSetup = false ∧ (s.phase client).owesStored = false) ∧
        (s.phase client).owesReset = false := by
      simpa [Apart, owesNothing] using hapart
    have hnone {owes : SetupPhase → Bool} (howes : owes (s.phase client) = false) :
        owes (s.phase client) = true → owes .idle = true := fun h => nomatch howes.symm.trans h
    refine ⟨h.setup.update rfl (hnone hopen.1.1), h.stored.update rfl (hnone hopen.1.2),
      h.reset.update rfl (hnone hopen.2), h.origin.update rfl fun hcompletes => ?_⟩
    have howes := hopen.2
    cases hphase : s.phase client with
    | configuring value => rw [hphase] at howes; cases howes
    | _ => rw [hphase] at hcompletes; cases hcompletes
  | restart =>
    refine ⟨.inl rfl, .inl rfl, .inl ?_, .inl ?_⟩ <;>
      exact h.origin.fact_of_forall fun client => completes_eq_false (hapart client)

end FlagsSettled

/-- Only two states of the flags let a request without session and API key pass. -/
theorem checkAuth_allowed {isLocal : Bool} {method : AuthMethod}
    (h : checkAuth store isLocal false false = .allowed method) :
    isLocal = true ∧ (store.authDisabled = true ∨ store.setupComplete = false) := by
  cases hdisabled : store.authDisabled <;> cases hsetup : store.setupComplete <;>
    cases isLocal <;> simp [checkAuth, hdisabled, hsetup] at h ⊢

/-- **The setup flag never opens a configured instance**, over every run whose steps come between
nothing and cut off nothing: while no operation is in progress, the flags say what the tables hold,
and a request without credentials passes only if none are stored or a reset disabled
authentication. -/
theorem setup_never_opens {store : SetupStore} {s : SetupRun} {es : List SetupEvent}
    (hrun : Run (fun s e t => SetupStep s e t ∧ Apart s e) (.start store) es s)
    (hidle : ∀ client, s.phase client = .idle) :
    s.store.setupComplete = s.store.hasCredential ∧
    s.store.authDisabled = s.store.storedDisabled ∧
    (s.store.authDisabled = true → s.disabledByReset = true) ∧
    ∀ isLocal method, checkAuth s.store isLocal false false = .allowed method →
      isLocal = true ∧ (s.store.hasCredential = false ∨ s.disabledByReset = true) := by
  obtain ⟨-, h⟩ : SetupKnown s ∧ FlagsSettled s := by
    refine hrun.invariant (P := fun s => SetupKnown s ∧ FlagsSettled s)
      (fun _ _ _ hs hstep => ?_) ⟨.start store, .start store⟩
    exact ⟨hs.1.step hstep.1 hstep.2, hs.2.step hs.1 hstep.1 hstep.2⟩
  have hsetup : s.store.setupComplete = s.store.hasCredential :=
    h.setup.fact_of_forall fun client => by rw [hidle client]; rfl
  have hstored : s.store.authDisabled = s.store.storedDisabled :=
    h.stored.fact_of_forall fun client => by rw [hidle client]; rfl
  have hreset : s.store.authDisabled = true → s.disabledByReset = true :=
    h.reset.fact_of_forall fun client => by rw [hidle client]; rfl
  refine ⟨hsetup, hstored, hreset, fun isLocal method hallowed => ?_⟩
  obtain ⟨hlocal, hflags⟩ := checkAuth_allowed hallowed
  refine ⟨hlocal, ?_⟩
  rcases hflags with hdisabled | hincomplete
  · exact .inr (hreset hdisabled)
  · exact .inl (hsetup.symm.trans hincomplete)

/-! ## Runs -/

def emptySetup : SetupStore where
  password := none
  passkeys := []
  storedDisabled := false
  setupComplete := false
  authDisabled := false

/-- A password is set while a passkey is stored, and then a reset and a restart. -/
def configuredThenReset : List SetupEvent :=
  [.setInitial 0, .insertPassword 0 "h", .storePasskey 2 7, .storeSetup 0, .readPassword 2,
    .storeDisabled 0, .readPasskeys 2, .storeSetup 2, .persist 0, .storeDisabled 2, .configure 0,
    .persist 2, .configure 2, .reset 1, .resetNext 1, .resetNext 1, .resetNext 1, .storeSetup 1,
    .storeDisabled 1, .persist 1, .configure 1, .restart]

theorem setup_never_opens_configuredThenReset : ∃ s : SetupRun,
    Run (fun s e t => SetupStep s e t ∧ Apart s e) (.start emptySetup) configuredThenReset s ∧
    s.store.setupComplete = s.store.hasCredential ∧ s.store.authDisabled = true ∧
    s.disabledByReset = true := by
  have hclients {P : ℕ → Prop} (h₀ : P 0) (h₁ : P 1) (h₂ : P 2) (h : ∀ n, P (n + 3)) : ∀ n, P n
    | 0 => h₀
    | 1 => h₁
    | 2 => h₂
    | n + 3 => h n
  have hrun : ∃ s : SetupRun,
      Run (fun s e t => SetupStep s e t ∧ Apart s e) (.start emptySetup) configuredThenReset s ∧
      (∀ client, s.phase client = .idle) ∧ s.store.authDisabled = true := by
    refine ⟨_, .cons ⟨.setInitial rfl rfl, trivial⟩ <| .cons ⟨.insertInitial rfl rfl, ?_⟩ <|
      .cons ⟨.storePasskey rfl (by decide), ?_⟩ <| .cons ⟨.storeSetup rfl, trivial⟩ <|
      .cons ⟨.markPassword rfl, trivial⟩ <| .cons ⟨.storeDisabled rfl, ?_⟩ <|
      .cons ⟨.markPasskeys rfl rfl, trivial⟩ <| .cons ⟨.storeSetup rfl, trivial⟩ <|
      .cons ⟨.persist rfl, trivial⟩ <| .cons ⟨.storeDisabled rfl, ?_⟩ <|
      .cons ⟨.configure rfl, trivial⟩ <| .cons ⟨.persist rfl, trivial⟩ <|
      .cons ⟨.configure rfl, trivial⟩ <| .cons ⟨.reset rfl, ?_⟩ <|
      .cons ⟨.resetSessions rfl, trivial⟩ <| .cons ⟨.resetPasskeys rfl, trivial⟩ <|
      .cons ⟨.resetOthers rfl, trivial⟩ <| .cons ⟨.storeSetup rfl, trivial⟩ <|
      .cons ⟨.storeDisabled rfl, ?_⟩ <| .cons ⟨.persist rfl, trivial⟩ <|
      .cons ⟨.configure rfl, trivial⟩ <| .cons ⟨.restart, ?_⟩ <| .nil _, fun _ => rfl, rfl⟩
    · exact hclients (by decide) (by decide) (by decide) fun n _ => nofun
    · exact hclients (by decide) (by decide) (by decide) fun n _ => nofun
    · rintro value hvalue
      cases hvalue
      exact hclients (by decide) (by decide) (by decide) fun n _ => nofun
    · rintro value hvalue
      cases hvalue
      exact hclients (by decide) (by decide) (by decide) fun n _ => nofun
    · exact hclients (by decide) (by decide) (by decide) fun n _ => rfl
    · rintro value hvalue
      cases hvalue
      exact hclients (by decide) (by decide) (by decide) fun n _ => nofun
    · exact hclients (by decide) (by decide) (by decide) fun n => nofun
  obtain ⟨s, hrun, hidle, hdisabled⟩ := hrun
  obtain ⟨hsetup, -, hreset, -⟩ := setup_never_opens hrun hidle
  exact ⟨s, hrun, hsetup, hdisabled, hreset hdisabled⟩

/-- A password is inserted, and the read that should follow fails. -/
def failsAfterInsert : List SetupEvent := [.add 0, .insertPassword 0 "h", .fail 0]

/-- A passkey is removed, and before its flag is stored another one is added. -/
def addedWhileRemoving : List SetupEvent :=
  [.removePasskey 0 7, .readPassword 0, .readPasskeys 0, .storePasskey 1 8, .readPassword 1,
    .readPasskeys 1, .storeSetup 1, .storeDisabled 1, .persist 1, .configure 1, .storeSetup 0]

/-- After either run no operation is in progress, a credential is stored, and a local request
without any passes. -/
theorem setup_opens :
    (∃ s : SetupRun, Run SetupStep (.start emptySetup) failsAfterInsert s ∧
      (∀ client, s.phase client = .idle) ∧ s.store.hasCredential = true ∧
      s.disabledByReset = false ∧ checkAuth s.store true false false = .allowed .loopback) ∧
    ∃ s : SetupRun, Run SetupStep (.start { emptySetup with passkeys := [7] }) addedWhileRemoving s ∧
      (∀ client, s.phase client = .idle) ∧ s.store.hasCredential = true ∧
      s.disabledByReset = false ∧ checkAuth s.store true false false = .allowed .loopback := by
  constructor
  · refine ⟨_, .cons (.add rfl rfl) <| .cons (.insertAdded rfl rfl) <| .cons .fail <| .nil _,
      fun client => ?_, rfl, rfl, rfl⟩
    by_cases hclient : client = 0
    · subst hclient
      rfl
    · simp [SetupRun.setPhase, SetupRun.setStore, SetupRun.start]
  · refine ⟨_, .cons (.removePasskey rfl) <| .cons (.recomputePassword rfl) <|
      .cons (.recomputePasskeys rfl) <| .cons (.storePasskey rfl (by decide)) <|
      .cons (.markPassword rfl) <| .cons (.markPasskeys rfl rfl) <| .cons (.storeSetup rfl) <|
      .cons (.storeDisabled rfl) <| .cons (.persist rfl) <| .cons (.configure rfl) <|
      .cons (.storeSetup rfl) <| .nil _, fun client => ?_, rfl, rfl, rfl⟩
    by_cases hzero : client = 0
    · subst hzero
      rfl
    · by_cases hone : client = 1
      · subst hone
        rfl
      · simp [SetupRun.setPhase, SetupRun.setStore, SetupRun.start, Function.update_of_ne hzero,
          Function.update_of_ne hone]

end Chelix.Auth
