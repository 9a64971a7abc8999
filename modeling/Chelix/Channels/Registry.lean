import Chelix.Library.Run

/-!
# The channel registry

The registry owns one plugin for each channel type and an index from account ids to channel types,
for outbound routing.  The duplicate check, the call of the plugin and the update of the index are
under different locks, so calls on one account interleave.

* **`routing_matches`**: the index is what is running, whenever no call is in progress.
-/

namespace Chelix.Channels

open Chelix.Library Function

/-- What a call does next. -/
inductive RegistryTask where
  | idle
  /-- The duplicate check of `start_account`, the plugin, and the index. -/
  | checking (channelType accountId : String)
  | starting (channelType accountId : String)
  | indexing (channelType accountId : String)
  /-- The plugin and the index of `stop_account`. -/
  | stopping (channelType accountId : String)
  | unindexing (channelType accountId : String)
  | done (result : Except String Unit)

/-- A call of `start_account` or `stop_account`. -/
structure RegistryCall where
  starts : Bool
  channelType : String
  accountId : String
  deriving DecidableEq

/-- The call that a task is in. -/
def RegistryTask.call : RegistryTask → Option RegistryCall
  | .checking channelType accountId | .starting channelType accountId
  | .indexing channelType accountId => some ⟨true, channelType, accountId⟩
  | .stopping channelType accountId | .unindexing channelType accountId =>
    some ⟨false, channelType, accountId⟩
  | .idle | .done _ => none

structure ChannelRegistry where
  /-- The channel types that have a plugin. -/
  plugins : String → Bool
  accountIndex : String → Option String
  /-- The accounts that a plugin runs. -/
  running : String → String → Bool
  tasks : ℕ → RegistryTask

namespace ChannelRegistry

def new (plugins : String → Bool) : ChannelRegistry where
  plugins
  accountIndex _ := none
  running _ _ := false
  tasks _ := .idle

variable (r : ChannelRegistry)

def resolveChannelType (accountId : String) : Option String := r.accountIndex accountId

/-- The channel type whose plugin sends for the account. -/
def resolveOutbound (accountId : String) : Option String :=
  (r.resolveChannelType accountId).filter r.plugins

def unknownType (channelType : String) : RegistryTask :=
  .done (.error ("unknown channel type: " ++ channelType))

/-- `start_account` looks for the plugin. -/
def start (channelType accountId : String) : RegistryTask :=
  if r.plugins channelType then .checking channelType accountId else unknownType channelType

/-- The account is refused if it is indexed under another channel type. -/
def check (channelType accountId : String) : RegistryTask :=
  match r.accountIndex accountId with
  | none => .starting channelType accountId
  | some existing =>
    if existing ≠ channelType then
      .done (.error ("account_id '" ++ accountId ++
        "' already registered under channel type '" ++ existing ++ "'"))
    else .starting channelType accountId

/-- `stop_account` looks for the plugin. -/
def stop (channelType accountId : String) : RegistryTask :=
  if r.plugins channelType then .stopping channelType accountId else unknownType channelType

def move (tid : ℕ) (task : RegistryTask) : ChannelRegistry :=
  { r with tasks := Function.update r.tasks tid task }

/-- The plugin runs the account, or does not any more. -/
def setRunning (channelType accountId : String) (present : Bool) : ChannelRegistry :=
  { r with
    running := Function.update r.running channelType
      (Function.update (r.running channelType) accountId present) }

def setIndex (accountId : String) (channelType : Option String) : ChannelRegistry :=
  { r with accountIndex := Function.update r.accountIndex accountId channelType }

end ChannelRegistry

/-- A call begins; a plugin starts an account, or fails to; or a task does anything else. -/
inductive RegistryAct where
  | call (tid : ℕ) (call : RegistryCall)
  | started (tid : ℕ)
  | startFailed (tid : ℕ)
  | task (tid : ℕ)
  deriving DecidableEq

open ChannelRegistry in
inductive RegistryStep (r : ChannelRegistry) : RegistryAct → ChannelRegistry → Prop
  | start {tid : ℕ} (channelType accountId : String) (hidle : r.tasks tid = .idle) :
      RegistryStep r (.call tid ⟨true, channelType, accountId⟩)
        (r.move tid (r.start channelType accountId))
  | check {tid : ℕ} {channelType accountId : String}
      (htask : r.tasks tid = .checking channelType accountId) :
      RegistryStep r (.task tid) (r.move tid (r.check channelType accountId))
  | started {tid : ℕ} {channelType accountId : String}
      (htask : r.tasks tid = .starting channelType accountId) :
      RegistryStep r (.started tid)
        ((r.setRunning channelType accountId true).move tid (.indexing channelType accountId))
  /-- A start that fails leaves the account not running. -/
  | startFailed {tid : ℕ} {channelType accountId : String} (error : String)
      (htask : r.tasks tid = .starting channelType accountId) :
      RegistryStep r (.startFailed tid)
        ((r.setRunning channelType accountId false).move tid (.done (.error error)))
  | index {tid : ℕ} {channelType accountId : String}
      (htask : r.tasks tid = .indexing channelType accountId) :
      RegistryStep r (.task tid)
        ((r.setIndex accountId (some channelType)).move tid (.done (.ok ())))
  | stop {tid : ℕ} (channelType accountId : String) (hidle : r.tasks tid = .idle) :
      RegistryStep r (.call tid ⟨false, channelType, accountId⟩)
        (r.move tid (r.stop channelType accountId))
  | stopped {tid : ℕ} {channelType accountId : String}
      (htask : r.tasks tid = .stopping channelType accountId) :
      RegistryStep r (.task tid)
        ((r.setRunning channelType accountId false).move tid (.unindexing channelType accountId))
  /-- An account that does not run is stopped without an error. -/
  | stopFailed {tid : ℕ} {channelType accountId : String} (error : String)
      (htask : r.tasks tid = .stopping channelType accountId)
      (hrunning : r.running channelType accountId = true) :
      RegistryStep r (.task tid) (r.move tid (.done (.error error)))
  | unindex {tid : ℕ} {channelType accountId : String}
      (htask : r.tasks tid = .unindexing channelType accountId) :
      RegistryStep r (.task tid) ((r.setIndex accountId none).move tid (.done (.ok ())))
  /-- The call returns. -/
  | returned {tid : ℕ} {result : Except String Unit} (htask : r.tasks tid = .done result) :
      RegistryStep r (.task tid) (r.move tid .idle)

namespace ChannelRegistry

/-! ## Steps that keep the index right -/

variable (r : ChannelRegistry)

/-- An account is started on a channel type while no other one runs it, and a start fails only where
the account does not run; what is put into the index still runs, and what is removed from it does
not run on any channel type. -/
def Keeps : RegistryAct → Prop
  | .call _ _ => True
  | .started tid => ∀ channelType accountId, r.tasks tid = .starting channelType accountId →
      ∀ other, other ≠ channelType → r.running other accountId = false
  | .startFailed tid => ∀ channelType accountId, r.tasks tid = .starting channelType accountId →
      r.running channelType accountId = false
  | .task tid =>
    (∀ channelType accountId, r.tasks tid = .indexing channelType accountId →
      r.running channelType accountId = true) ∧
    ∀ channelType accountId, r.tasks tid = .unindexing channelType accountId →
      ∀ other, r.running other accountId = false

/-- A call goes on only with a plugin. -/
def TaskOk (plugins : String → Bool) : RegistryTask → Prop
  | .checking channelType _ | .starting channelType _ => plugins channelType = true
  | _ => True

/-- What is indexed runs and what runs is indexed, or a call in progress sees to it. -/
structure Matched : Prop where
  indexed : ∀ accountId channelType, r.accountIndex accountId = some channelType →
    r.running channelType accountId = true ∨
      ∃ tid other, r.tasks tid = .unindexing other accountId
  running : ∀ accountId channelType, r.running channelType accountId = true →
    r.accountIndex accountId = some channelType ∨
      ∃ tid, r.tasks tid = .indexing channelType accountId
  once : ∀ accountId channelType other, r.running channelType accountId = true →
    r.running other accountId = true → channelType = other
  registered : ∀ channelType accountId, r.running channelType accountId = true →
    r.plugins channelType = true
  tasks : ∀ tid, TaskOk r.plugins (r.tasks tid)

variable {r}

theorem running_setRunning (channelType accountId other account : String) (present : Bool) :
    (r.setRunning channelType accountId present).running other account =
      if other = channelType ∧ account = accountId then present else r.running other account := by
  rw [setRunning]
  dsimp only
  by_cases htype : other = channelType
  · subst htype
    rw [update_self]
    by_cases haccount : account = accountId
    · subst haccount
      rw [update_self, if_pos ⟨rfl, rfl⟩]
    · rw [update_of_ne haccount, if_neg fun h => haccount h.2]
  · rw [update_of_ne htype, if_neg fun h => htype h.1]

variable {channelType accountId : String} {tid : ℕ} {task : RegistryTask} {act : RegistryAct}

namespace Matched

variable (h : r.Matched)
include h

theorem move (htask : TaskOk r.plugins task)
    (hindexing : ∀ channelType accountId, r.tasks tid = .indexing channelType accountId →
      r.accountIndex accountId = some channelType)
    (hunindexing : ∀ channelType accountId, r.tasks tid = .unindexing channelType accountId →
      r.accountIndex accountId = none) : (r.move tid task).Matched := by
  have hself : (r.move tid task).tasks tid = task := update_self ..
  have hother : ∀ tid', tid' ≠ tid → (r.move tid task).tasks tid' = r.tasks tid' :=
    fun tid' hne => update_of_ne hne ..
  exact { h with
    indexed := by
      intro accountId channelType hindex
      refine (h.indexed accountId channelType hindex).imp_right ?_
      rintro ⟨tid', other, hpending⟩
      refine ⟨tid', other, (hother tid' ?_).trans hpending⟩
      rintro rfl
      exact nomatch hindex.symm.trans (hunindexing other accountId hpending)
    running := by
      intro accountId channelType hrunning
      rcases h.running accountId channelType hrunning with hindex | ⟨tid', hpending⟩
      · exact .inl hindex
      · by_cases heq : tid' = tid
        · subst heq
          exact .inl (hindexing channelType accountId hpending)
        · exact .inr ⟨tid', (hother tid' heq).trans hpending⟩
    tasks := by
      intro tid'
      by_cases heq : tid' = tid
      · subst heq
        rw [hself]
        exact htask
      · rw [hother tid' heq]
        exact h.tasks tid' }

theorem started (hregistered : r.plugins channelType = true)
    (halone : ∀ other, other ≠ channelType → r.running other accountId = false)
    (hpending : ∃ tid, r.tasks tid = .indexing channelType accountId) :
    (r.setRunning channelType accountId true).Matched where
  indexed account other hindex := by
    rw [running_setRunning]
    split
    · exact .inl rfl
    · exact h.indexed account other hindex
  running account other hrunning := by
    rw [running_setRunning] at hrunning
    split at hrunning
    · rename_i heq
      obtain ⟨rfl, rfl⟩ := heq
      exact .inr hpending
    · exact h.running account other hrunning
  once account other other' hrunning hrunning' := by
    rw [running_setRunning] at hrunning hrunning'
    split at hrunning
    · rename_i heq
      obtain ⟨rfl, rfl⟩ := heq
      split at hrunning'
      · rename_i heq'
        exact heq'.1.symm
      · by_contra hne
        exact nomatch hrunning'.symm.trans (halone other' (Ne.symm hne))
    · split at hrunning'
      · rename_i heq'
        obtain ⟨rfl, rfl⟩ := heq'
        by_contra hne
        exact nomatch hrunning.symm.trans (halone other hne)
      · exact h.once account other other' hrunning hrunning'
  registered other account hrunning := by
    rw [running_setRunning] at hrunning
    split at hrunning
    · rename_i heq
      exact heq.1 ▸ hregistered
    · exact h.registered other account hrunning
  tasks := h.tasks

theorem stopped (hpending : ∃ tid other, r.tasks tid = .unindexing other accountId) :
    (r.setRunning channelType accountId false).Matched := by
  have hkept : ∀ other account,
      (r.setRunning channelType accountId false).running other account = true →
      r.running other account = true := by
    intro other account hrunning
    rw [running_setRunning] at hrunning
    split at hrunning
    · exact nomatch hrunning
    · exact hrunning
  exact {
    indexed := by
      intro account other hindex
      rw [running_setRunning]
      split
      · rename_i heq
        obtain ⟨rfl, rfl⟩ := heq
        exact .inr hpending
      · exact h.indexed account other hindex
    running := fun account other hrunning => h.running account other (hkept _ _ hrunning)
    once := fun account other other' hrunning hrunning' =>
      h.once account other other' (hkept _ _ hrunning) (hkept _ _ hrunning')
    registered := fun other account hrunning => h.registered other account (hkept _ _ hrunning)
    tasks := h.tasks }

theorem setIndex {accountId : String} {entry : Option String}
    (hentry : ∀ channelType, entry = some channelType ↔ r.running channelType accountId = true) :
    (r.setIndex accountId entry).Matched := by
  have hself : (r.setIndex accountId entry).accountIndex accountId = entry :=
    update_self ..
  have hother : ∀ account, account ≠ accountId →
      (r.setIndex accountId entry).accountIndex account = r.accountIndex account :=
    fun account hne => update_of_ne hne ..
  exact { h with
    indexed := by
      intro account channelType hindex
      by_cases heq : account = accountId
      · subst heq
        rw [hself] at hindex
        exact .inl ((hentry channelType).mp hindex)
      · rw [hother account heq] at hindex
        exact h.indexed account channelType hindex
    running := by
      intro account channelType hrunning
      by_cases heq : account = accountId
      · subst heq
        exact .inl (hself.trans ((hentry channelType).mpr hrunning))
      · rw [hother account heq]
        exact h.running account channelType hrunning }

theorem step {r' : ChannelRegistry} (hstep : RegistryStep r act r')
    (hkeeps : r.Keeps act) : r'.Matched := by
  have hfree : ∀ {tid task task'}, r.tasks tid = task →
      (∀ channelType accountId, task ≠ .indexing channelType accountId) →
      (∀ channelType accountId, task ≠ .unindexing channelType accountId) → TaskOk r.plugins task' →
      (r.move tid task').Matched := by
    rintro tid _ task' rfl hindexing hunindexing hok
    exact h.move hok (fun _ _ hphase => absurd hphase (hindexing _ _))
      (fun _ _ hphase => absurd hphase (hunindexing _ _))
  cases hstep with
  | start channelType accountId hidle =>
    refine hfree hidle nofun nofun ?_
    rw [start]
    split
    · assumption
    · trivial
  | @check tid channelType accountId htask =>
    have hok := h.tasks tid
    rw [htask] at hok
    refine hfree htask nofun nofun ?_
    rw [check]
    split
    · exact hok
    · split
      · trivial
      · exact hok
  | @started tid channelType accountId htask =>
    have hok := h.tasks tid
    rw [htask] at hok
    have hmove : (r.move tid (.indexing channelType accountId)).Matched :=
      hfree htask nofun nofun trivial
    exact hmove.started hok (hkeeps _ _ htask) ⟨tid, update_self ..⟩
  | @startFailed tid channelType accountId error htask =>
    have hrunning := hkeeps _ _ htask
    have hsame : r.setRunning channelType accountId false = r := by
      rw [setRunning, ← hrunning, update_eq_self, update_eq_self]
    rw [hsame]
    exact hfree htask nofun nofun trivial
  | @index tid channelType accountId htask =>
    have hrunning := hkeeps.1 _ _ htask
    have hindexed : (r.setIndex accountId (some channelType)).Matched := by
      refine h.setIndex fun other => ⟨fun hsome => Option.some.inj hsome ▸ hrunning, ?_⟩
      exact fun hother => congrArg some (h.once _ _ _ hrunning hother)
    refine hindexed.move trivial (fun other account hphase => ?_)
      (fun other account hphase => nomatch htask.symm.trans hphase)
    obtain ⟨rfl, rfl⟩ := RegistryTask.indexing.inj (htask.symm.trans hphase)
    exact update_self ..
  | stop channelType accountId hidle =>
    refine hfree hidle nofun nofun ?_
    rw [stop]
    split <;> trivial
  | @stopped tid channelType accountId htask =>
    have hmove : (r.move tid (.unindexing channelType accountId)).Matched :=
      hfree htask nofun nofun trivial
    exact hmove.stopped ⟨tid, channelType, update_self ..⟩
  | stopFailed error htask | returned htask => exact hfree htask nofun nofun trivial
  | @unindex tid channelType accountId htask =>
    have hnone := hkeeps.2 _ _ htask
    have hindexed : (r.setIndex accountId none).Matched := by
      refine h.setIndex fun other => iff_of_false nofun ?_
      rw [hnone other]
      nofun
    refine hindexed.move trivial (fun other account hphase => nomatch htask.symm.trans hphase)
      (fun other account hphase => ?_)
    obtain ⟨-, rfl⟩ := RegistryTask.unindexing.inj (htask.symm.trans hphase)
    exact update_self ..

end Matched

theorem matched_new (plugins : String → Bool) : (new plugins).Matched where
  indexed _ _ hindex := nomatch hindex
  running _ _ hrunning := nomatch hrunning
  once _ _ _ hrunning := nomatch hrunning
  registered _ _ hrunning := nomatch hrunning
  tasks _ := trivial

/-! ## Orderly calls -/

/-- A call begins only while all calls in progress on its account are the same call, and a stop only
where no other channel type runs the account; a start fails only where the account does not run. -/
def Orderly (r : ChannelRegistry) : RegistryAct → Prop
  | .call _ call =>
    (∀ tid other, (r.tasks tid).call = some other → other.accountId = call.accountId →
      other = call) ∧
    (call.starts = false → ∀ other, other ≠ call.channelType →
      r.running other call.accountId = false)
  | .startFailed tid => ∀ channelType accountId, r.tasks tid = .starting channelType accountId →
      r.running channelType accountId = false
  | .started _ | .task _ => True

def OrderlyStep (r : ChannelRegistry) (act : RegistryAct) (r' : ChannelRegistry) : Prop :=
  RegistryStep r act r' ∧ r.Orderly act

/-- What a call in progress may take for granted. -/
def Granted (r : ChannelRegistry) : RegistryTask → Prop
  | .starting channelType accountId | .stopping channelType accountId =>
    ∀ other, other ≠ channelType → r.running other accountId = false
  | .indexing channelType accountId => r.running channelType accountId = true
  | .unindexing _ accountId => ∀ other, r.running other accountId = false
  | .idle | .checking _ _ | .done _ => True

/-- The calls in progress on one account are the same, and what they take for granted is so. -/
structure Ordered (r : ChannelRegistry) : Prop where
  same : ∀ tid tid' call other, (r.tasks tid).call = some call → (r.tasks tid').call = some other →
    other.accountId = call.accountId → other = call
  granted : ∀ tid, r.Granted (r.tasks tid)

namespace Ordered

theorem move (h : r.Ordered) (hcall : ∀ call, task.call = some call →
      ∀ tid' other, tid' ≠ tid → (r.tasks tid').call = some other →
        other.accountId = call.accountId → other = call)
    (hgranted : r.Granted task) : (r.move tid task).Ordered := by
  have hself : (r.move tid task).tasks tid = task := update_self ..
  have hother : ∀ tid', tid' ≠ tid → (r.move tid task).tasks tid' = r.tasks tid' :=
    fun tid' hne => update_of_ne hne ..
  refine ⟨fun tid₁ tid₂ call other h₁ h₂ haccount => ?_, fun tid' => ?_⟩
  · by_cases heq₁ : tid₁ = tid
    · subst heq₁
      rw [hself] at h₁
      by_cases heq₂ : tid₂ = tid₁
      · subst heq₂
        rw [hself, h₁] at h₂
        exact (Option.some.inj h₂).symm
      · rw [hother tid₂ heq₂] at h₂
        exact hcall call h₁ tid₂ other heq₂ h₂ haccount
    · rw [hother tid₁ heq₁] at h₁
      by_cases heq₂ : tid₂ = tid
      · subst heq₂
        rw [hself] at h₂
        exact (hcall other h₂ tid₁ call heq₁ h₁ haccount.symm).symm
      · rw [hother tid₂ heq₂] at h₂
        exact h.same tid₁ tid₂ call other h₁ h₂ haccount
  · show r.Granted _
    by_cases heq : tid' = tid
    · subst heq
      rw [hself]
      exact hgranted
    · rw [hother tid' heq]
      exact h.granted tid'

theorem goesOn (h : r.Ordered)
    (hsame : task.call = (r.tasks tid).call) (call : RegistryCall) (hcall : task.call = some call)
    (tid' : ℕ) (other : RegistryCall) (_ : tid' ≠ tid) (hother : (r.tasks tid').call = some other)
    (haccount : other.accountId = call.accountId) : other = call :=
  h.same tid tid' call other (hsame ▸ hcall) hother haccount

theorem setRunning (h : r.Ordered) {present : Bool}
    (hcall : (r.tasks tid).call = some ⟨present, channelType, accountId⟩) :
    (r.setRunning channelType accountId present).Ordered := by
  refine ⟨h.same, fun tid' => ?_⟩
  have hgranted := h.granted tid'
  have hone : ∀ call, (r.tasks tid').call = some call → call.accountId = accountId →
      call = ⟨present, channelType, accountId⟩ := fun call hother haccount =>
    h.same tid tid' _ call hcall hother haccount
  show (r.setRunning channelType accountId present).Granted (r.tasks tid')
  cases htask : r.tasks tid' with
  | idle | checking _ _ | done _ => trivial
  | starting other account | stopping other account =>
    rw [htask] at hgranted hone
    intro another hne
    rw [running_setRunning]
    split
    · rename_i heq
      obtain ⟨rfl, rfl⟩ := heq
      have hcalls := hone _ rfl rfl
      exact absurd (congrArg RegistryCall.channelType hcalls).symm hne
    · exact hgranted another hne
  | indexing other account =>
    rw [htask] at hgranted hone
    show (r.setRunning channelType accountId present).running other account = true
    rw [running_setRunning]
    split
    · rename_i heq
      obtain ⟨rfl, rfl⟩ := heq
      exact (congrArg RegistryCall.starts (hone _ rfl rfl)).symm
    · exact hgranted
  | unindexing other account =>
    rw [htask] at hgranted hone
    intro another
    rw [running_setRunning]
    split
    · rename_i heq
      obtain ⟨rfl, rfl⟩ := heq
      exact (congrArg RegistryCall.starts (hone _ rfl rfl)).symm
    · exact hgranted another

/-- **The duplicate check**: where the account is not in the index under another channel type, no
other one runs it. -/
theorem alone_of_check (h : r.Ordered) (hmatched : r.Matched)
    (htask : r.tasks tid = .checking channelType accountId)
    (hindex : ∀ existing, r.accountIndex accountId = some existing → existing = channelType) :
    ∀ other, other ≠ channelType → r.running other accountId = false := by
  intro other hne
  rw [← Bool.not_eq_true]
  intro hrunning
  rcases hmatched.running accountId other hrunning with hother | ⟨tid', hpending⟩
  · exact hne (hindex other hother)
  · have hcall : (r.tasks tid).call = some ⟨true, channelType, accountId⟩ := by rw [htask]; rfl
    have hcall' : (r.tasks tid').call = some ⟨true, other, accountId⟩ := by rw [hpending]; rfl
    exact hne (congrArg RegistryCall.channelType (h.same tid tid' _ _ hcall hcall' rfl))

theorem keeps (h : r.Ordered) (horderly : r.Orderly act) : r.Keeps act := by
  have hgranted (tid : ℕ) {task : RegistryTask} (htask : r.tasks tid = task) : r.Granted task :=
    htask ▸ h.granted tid
  cases act with
  | call tid call => trivial
  | started tid => exact fun channelType accountId htask => hgranted tid htask
  | startFailed tid => exact horderly
  | task tid =>
    exact ⟨fun channelType accountId htask => hgranted tid htask,
      fun channelType accountId htask => hgranted tid htask⟩

theorem step (h : r.Ordered) (hmatched : r.Matched) {r' : ChannelRegistry}
    (hstep : RegistryStep r act r') (horderly : r.Orderly act) : r'.Ordered := by
  have hends : ∀ {tid : ℕ} {task : RegistryTask}, task.call = none → r.Granted task →
      (r.move tid task).Ordered := fun hnone hgranted =>
    h.move (fun call hcall => nomatch hnone.symm.trans hcall) hgranted
  cases hstep with
  | start channelType accountId hidle =>
    rw [start]
    split
    · refine h.move (fun call hcall tid' other _ hother haccount => ?_) trivial
      obtain rfl := Option.some.inj hcall
      exact horderly.1 tid' other hother haccount
    · exact hends rfl trivial
  | @check tid channelType accountId htask =>
    have hstarting (hindex : ∀ existing, r.accountIndex accountId = some existing →
        existing = channelType) : (r.move tid (.starting channelType accountId)).Ordered :=
      h.move (h.goesOn (by rw [htask]; rfl)) (h.alone_of_check hmatched htask hindex)
    rw [check]
    split
    · rename_i hnone
      exact hstarting fun existing hsome => nomatch hnone.symm.trans hsome
    · rename_i existing hsome
      split
      · exact hends rfl trivial
      · rename_i heq
        refine hstarting fun other hother => ?_
        rw [← Option.some.inj (hsome.symm.trans hother)]
        exact not_not.mp heq
  | @started tid channelType accountId htask =>
    have hcall : (r.tasks tid).call = some ⟨true, channelType, accountId⟩ := by rw [htask]; rfl
    have hset := h.setRunning hcall
    refine hset.move (hset.goesOn hcall.symm) ?_
    show (r.setRunning channelType accountId true).running channelType accountId = true
    rw [running_setRunning, if_pos ⟨rfl, rfl⟩]
  | @startFailed tid channelType accountId error htask =>
    have hsame : r.setRunning channelType accountId false = r := by
      rw [ChannelRegistry.setRunning, ← horderly _ _ htask, update_eq_self, update_eq_self]
    rw [hsame]
    exact hends rfl trivial
  | index htask | unindex htask =>
    have hindexed (accountId : String) (entry : Option String) :
        (r.setIndex accountId entry).Ordered := { same := h.same, granted := h.granted }
    exact (hindexed _ _).move (fun call hcall => nomatch hcall) trivial
  | stop channelType accountId hidle =>
    rw [stop]
    split
    · refine h.move (fun call hcall tid' other _ hother haccount => ?_) (horderly.2 rfl)
      obtain rfl := Option.some.inj hcall
      exact horderly.1 tid' other hother haccount
    · exact hends rfl trivial
  | @stopped tid channelType accountId htask =>
    have hcall : (r.tasks tid).call = some ⟨false, channelType, accountId⟩ := by rw [htask]; rfl
    have hset := h.setRunning hcall
    refine hset.move (hset.goesOn hcall.symm) fun other => ?_
    have hgranted := h.granted tid
    rw [htask] at hgranted
    rw [running_setRunning]
    split
    · rfl
    · rename_i hne
      exact hgranted other fun heq => hne ⟨heq, rfl⟩
  | stopFailed error htask | returned htask => exact hends rfl trivial

end Ordered

theorem ordered_new (plugins : String → Bool) : (new plugins).Ordered where
  same _ _ _ _ hcall := nomatch hcall
  granted _ := trivial

/-! ## Routing -/

def Quiet (r : ChannelRegistry) : Prop :=
  ∀ tid, r.tasks tid = .idle ∨ ∃ result, r.tasks tid = .done result

/-- The index, and with it the routing, is what is running, each account on one channel type. -/
def Routes (r : ChannelRegistry) : Prop :=
  (∀ accountId channelType, r.resolveChannelType accountId = some channelType ↔
    r.running channelType accountId = true) ∧
  (∀ accountId channelType other, r.running channelType accountId = true →
    r.running other accountId = true → channelType = other) ∧
  ∀ accountId channelType, r.resolveOutbound accountId = some channelType ↔
    r.running channelType accountId = true

theorem Matched.routes (h : r.Matched) (hquiet : r.Quiet) : r.Routes := by
  have hpending : ∀ tid channelType accountId, r.tasks tid ≠ .indexing channelType accountId ∧
      r.tasks tid ≠ .unindexing channelType accountId := by
    intro tid channelType accountId
    rcases hquiet tid with hidle | ⟨result, hdone⟩
    · rw [hidle]
      exact ⟨nofun, nofun⟩
    · rw [hdone]
      exact ⟨nofun, nofun⟩
  have hindex : ∀ accountId channelType, r.resolveChannelType accountId = some channelType ↔
      r.running channelType accountId = true := by
    intro accountId channelType
    constructor
    · intro hsome
      refine (h.indexed accountId channelType hsome).resolve_right ?_
      rintro ⟨tid, other, hphase⟩
      exact (hpending tid other accountId).2 hphase
    · intro hrunning
      refine (h.running accountId channelType hrunning).resolve_right ?_
      rintro ⟨tid, hphase⟩
      exact (hpending tid channelType accountId).1 hphase
  refine ⟨hindex, h.once, fun accountId channelType => ?_⟩
  rw [resolveOutbound, Option.filter_eq_some_iff, hindex]
  exact and_iff_left_of_imp (h.registered channelType accountId)

/-- **Routing matches**: as long as the calls are orderly, the index is what is running. -/
theorem routing_matches {plugins : String → Bool} {acts : List RegistryAct} {r : ChannelRegistry}
    (hrun : Run OrderlyStep (new plugins) acts r) (hquiet : r.Quiet) : r.Routes := by
  have hinvariant : r.Matched ∧ r.Ordered := by
    refine hrun.invariant (P := fun r => r.Matched ∧ r.Ordered) (fun r act r' h hstep => ?_)
      ⟨matched_new plugins, ordered_new plugins⟩
    exact ⟨h.1.step hstep.1 (h.2.keeps hstep.2), h.2.step h.1 hstep.1 hstep.2⟩
  exact hinvariant.1.routes hquiet

/-- An account is started, and is refused on another channel type. -/
def refusedElsewhere : List RegistryAct :=
  [.call 0 ⟨true, "telegram", "account"⟩, .task 0, .started 0, .task 0,
    .call 1 ⟨true, "slack", "account"⟩, .task 1]

theorem routing_matches_refusedElsewhere : ∃ r,
    Run OrderlyStep (new fun _ => true) refusedElsewhere r ∧
      r.running "telegram" "account" = true ∧ r.Routes := by
  have hrun : ∃ r, Run OrderlyStep (new fun _ => true) refusedElsewhere r ∧
      r.running "telegram" "account" = true ∧ r.Quiet := by
    refine ⟨_, .cons ⟨.start "telegram" "account" rfl, nofun, nofun⟩ <|
      .cons ⟨.check rfl, trivial⟩ <| .cons ⟨.started rfl, trivial⟩ <|
      .cons ⟨.index rfl, trivial⟩ <|
      .cons ⟨.start "slack" "account" rfl, fun tid other hcall => ?_, nofun⟩ <|
      .cons ⟨.check rfl, trivial⟩ <| .nil _, rfl, fun tid => ?_⟩
    · -- the first call is over
      by_cases htid : tid = 0
      · subst htid
        cases hcall
      · simp [move, setIndex, ChannelRegistry.setRunning, new, htid, RegistryTask.call] at hcall
    · by_cases htid : tid = 1
      · subst htid
        exact .inr ⟨_, rfl⟩
      · by_cases hzero : tid = 0
        · subst hzero
          exact .inr ⟨_, rfl⟩
        · left
          simp [move, setIndex, ChannelRegistry.setRunning, new, htid, hzero]
  obtain ⟨r, hrun, hrunning, hquiet⟩ := hrun
  exact ⟨r, hrun, hrunning, routing_matches hrun hquiet⟩

theorem stopped_elsewhere : ¬∀ (plugins : String → Bool) (acts : List RegistryAct)
    (r : ChannelRegistry), Run RegistryStep (new plugins) acts r → r.Quiet → r.Routes := by
  intro h
  have hrun : ∃ r, Run RegistryStep (new fun _ => true)
      [.call 0 ⟨true, "telegram", "account"⟩, .task 0, .started 0, .task 0, .task 0,
        .call 0 ⟨false, "slack", "account"⟩, .task 0, .task 0] r ∧
      r.running "telegram" "account" = true ∧ r.resolveChannelType "account" = none ∧
      r.Quiet := by
    refine ⟨_, .cons (.start "telegram" "account" rfl) <| .cons (.check rfl) <|
      .cons (.started rfl) <| .cons (.index rfl) <| .cons (.returned rfl) <|
      .cons (.stop "slack" "account" rfl) <| .cons (.stopped rfl) <| .cons (.unindex rfl) <|
      .nil _, rfl, rfl, fun tid => ?_⟩
    by_cases htid : tid = 0
    · subst htid
      exact .inr ⟨_, rfl⟩
    · left
      simp [move, setIndex, setRunning, new, htid]
  obtain ⟨r, hrun, hrunning, hindex, hquiet⟩ := hrun
  have hsome := ((h _ _ r hrun hquiet).1 "account" "telegram").mpr hrunning
  exact nomatch hindex.symm.trans hsome

end ChannelRegistry

end Chelix.Channels
