import Chelix.Chat.ToolPermission

/-!
# A decision reaches its call
-/

namespace Chelix.Chat

open Chelix.Library GatePhase ToolPermissionManager OrderedMap

namespace ToolPermissionManager

/-- The slots and the channels fit: a slot in the map is of a call that waits or is cancelled,
and a call that waits has its slot in the map or in the hands of a resolver. -/
structure Sound (m : ToolPermissionManager) : Prop where
  slots : ∀ (key : String) (slot : PendingSlot), m.pending[key]? = some slot → key = slot.view.key ∧
    (m.gates slot.tx = .waiting slot.view ∨ m.gates slot.tx = .sweeping slot.view)
  waiting : ∀ n view, m.gates n = .waiting view → m.pending[view.key]? = some ⟨view, n⟩ ∨
    ∃ r call, m.resolvers r = .holding ⟨view, n⟩ call
  apart : ∀ n n' view view', (m.gates n).live = some view → (m.gates n').live = some view' →
    view.key = view'.key → n = n'
  own : ∀ n view (slot : PendingSlot), (m.gates n).live = some view → m.pending[view.key]? = some slot →
    slot.tx = n
  held : ∀ r slot call, m.resolvers r = .holding slot call → slot.view.IsFor call ∧
    (m.gates slot.tx = .waiting slot.view ∨ (m.gates slot.tx).live = none) ∧
    ∀ (key : String) (other : PendingSlot), m.pending[key]? = some other → other.tx ≠ slot.tx
  alone : ∀ r r' slot slot' call call', m.resolvers r = .holding slot call →
    m.resolvers r' = .holding slot' call' → slot.tx = slot'.tx → r = r'
  entered : ∀ r slot call, m.resolvers r = .holding slot call → m.gates slot.tx ≠ .idle ∧
    ∀ view, m.gates slot.tx ≠ .registering view
  received : ∀ n view r call, (m.gates n).received = some (view, r, call) →
    (∃ request, view = some request ∧ request.IsFor call) ∧
      ∃ result, m.resolvers r = .returned result
  once : ∀ n n' view view' r call call', (m.gates n).received = some (view, r, call) →
    (m.gates n').received = some (view', r, call') → n = n'

variable {m : ToolPermissionManager}

/-! ## Views of the state -/

theorem gates_setGate (m : ToolPermissionManager) (n : ℕ) (phase : GatePhase) (n' : ℕ) :
    (m.setGate n phase).gates n' = if n' = n then phase else m.gates n' :=
  Function.update_apply ..

theorem resolvers_setResolver (m : ToolPermissionManager) (r : ℕ) (phase : ResolverPhase)
    (r' : ℕ) : (m.setResolver r phase).resolvers r' = if r' = r then phase else m.resolvers r' :=
  Function.update_apply ..

variable {slot : PendingSlot}

theorem get_dropWhere {p : String → PendingSlot → Bool} {key : String} :
    (m.dropWhere p).pending[key]? = some slot ↔ m.pending[key]? = some slot ∧ p key slot = false := by
  change (m.pending.filter fun key slot => !p key slot)[key]? = some slot ↔ _
  rw [Std.ExtTreeMap.getElem?_filter']
  cases m.pending[key]? with
  | none => simp
  | some found =>
    rw [Option.filter_some]
    by_cases hp : p key found = true
    · rw [hp, Bool.not_true, if_neg (by simp)]
      simp only [Option.some.injEq, reduceCtorEq, false_iff, not_and, Bool.not_eq_false]
      rintro rfl
      exact hp
    · rw [Bool.not_eq_true] at hp
      rw [hp, Bool.not_false, if_pos rfl]
      simp only [Option.some.injEq, iff_self_and]
      rintro rfl
      exact hp

/-- Dropping slots moves a call only from waiting to closed. -/
theorem gates_dropWhere (m : ToolPermissionManager) (p : String → PendingSlot → Bool) (n : ℕ) :
    (m.dropWhere p).gates n = m.gates n ∨ ∃ view, m.gates n = .waiting view ∧
      (m.dropWhere p).gates n = .closed view ∧
        ∃ slot, m.pending[view.key]? = some slot ∧ slot.tx = n ∧ p view.key slot = true := by
  cases hphase : m.gates n with
  | waiting view =>
    have hgate : (m.dropWhere p).gates n =
        if m.pending[view.key]?.any fun slot => slot.tx = n && p view.key slot then .closed view
        else .waiting view := by
      simp only [dropWhere, hphase]
    cases hslot : m.pending[view.key]? with
    | none =>
      rw [hslot] at hgate
      exact Or.inl hgate
    | some slot =>
      rw [hslot, Option.any_some] at hgate
      by_cases hdrop : (decide (slot.tx = n) && p view.key slot) = true
      · rw [if_pos hdrop] at hgate
        rw [Bool.and_eq_true, decide_eq_true_eq] at hdrop
        exact Or.inr ⟨view, rfl, hgate, slot, hslot, hdrop⟩
      · rw [if_neg hdrop] at hgate
        exact Or.inl hgate
  | _ => exact Or.inl (by simp only [dropWhere, hphase])

theorem live_dropWhere (m : ToolPermissionManager) (p : String → PendingSlot → Bool) (n : ℕ) :
    ((m.dropWhere p).gates n).live = (m.gates n).live := by
  rcases m.gates_dropWhere p n with h | ⟨view, hold, hnew, -⟩
  · rw [h]
  · rw [hold, hnew]
    rfl

theorem received_dropWhere (m : ToolPermissionManager) (p : String → PendingSlot → Bool) (n : ℕ) :
    ((m.dropWhere p).gates n).received = (m.gates n).received := by
  rcases m.gates_dropWhere p n with h | ⟨view, hold, hnew, -⟩
  · rw [h]
  · rw [hold, hnew]
    rfl

variable {n : ℕ}

theorem gates_dropWhere_eq {p : String → PendingSlot → Bool} {n : ℕ}
    (h : ∀ view, m.gates n ≠ .waiting view) : (m.dropWhere p).gates n = m.gates n := by
  rcases m.gates_dropWhere p n with heq | ⟨view, hold, -⟩
  · exact heq
  · exact (h view hold).elim

variable {phase : GatePhase} {view : PendingToolPermission}

theorem isWaiting_of_live (hlive : phase.live = some view) :
    phase ≠ .idle ∧ (∀ other, phase ≠ .registering other) ∧ ∀ other, phase ≠ .sweeping other := by
  refine ⟨?_, fun other => ?_, fun other => ?_⟩ <;> rintro rfl <;> cases hlive

variable {r : ℕ} {call : ResolveCall}

namespace Sound

theorem new : new.Sound where
  slots _ _ hslot := nomatch hslot
  waiting _ _ hphase := nomatch hphase
  apart _ _ _ _ hlive := nomatch hlive
  own _ _ _ hlive := nomatch hlive
  held _ _ _ hheld := nomatch hheld
  alone _ _ _ _ _ _ hheld := nomatch hheld
  entered _ _ _ hheld := nomatch hheld
  received _ _ _ _ hd := nomatch hd
  once _ _ _ _ _ _ _ hd := nomatch hd

variable (h : m.Sound)
include h

theorem no_slot (hlive : (m.gates n).live = some view) (hwaiting : m.gates n ≠ .waiting view) :
    m.pending[view.key]? = none := by
  cases hslot : m.pending[view.key]? with
  | none => rfl
  | some slot =>
    obtain rfl := h.own n view slot hlive hslot
    obtain ⟨-, hphase | hphase⟩ := h.slots _ slot hslot
    · rw [hphase] at hlive
      obtain rfl := Option.some.inj hlive
      exact (hwaiting hphase).elim
    · exact ((isWaiting_of_live hlive).2.2 _ hphase).elim

theorem dropWhere (p : String → PendingSlot → Bool) : (m.dropWhere p).Sound where
  slots key slot hslot := by
    obtain ⟨hslot, hp⟩ := get_dropWhere.mp hslot
    obtain ⟨rfl, hphase⟩ := h.slots key slot hslot
    refine ⟨rfl, ?_⟩
    rcases hphase with hphase | hphase
    · refine Or.inl ?_
      rcases m.gates_dropWhere p slot.tx with heq | ⟨view, hview, -, other, hother, -, hdrop⟩
      · rw [heq, hphase]
      · obtain rfl : view = slot.view := by
          rw [hphase] at hview
          exact (GatePhase.waiting.inj hview).symm
        obtain rfl := Option.some.inj (hslot.symm.trans hother)
        rw [hp] at hdrop
        cases hdrop
    · refine Or.inr ?_
      rw [gates_dropWhere_eq (by rw [hphase]; nofun), hphase]
  waiting n view hphase := by
    rcases m.gates_dropWhere p n with heq | ⟨view', -, hclosed, -⟩
    · have hwaiting := heq.symm.trans hphase
      rcases h.waiting n view hwaiting with hslot | hheld
      · refine Or.inl (get_dropWhere.mpr ⟨hslot, ?_⟩)
        by_contra hp
        have hgate : (m.dropWhere p).gates n = .closed view := by
          simp only [ToolPermissionManager.dropWhere, hwaiting, hslot, Option.any_some,
            decide_true, Bool.true_and]
          rw [if_pos (by simpa using hp)]
        rw [hgate] at hphase
        cases hphase
      · exact Or.inr hheld
    · rw [hclosed] at hphase
      cases hphase
  apart n n' view view' hlive hlive' hkey := by
    rw [live_dropWhere] at hlive hlive'
    exact h.apart n n' view view' hlive hlive' hkey
  own n view slot hlive hslot := by
    rw [live_dropWhere] at hlive
    exact h.own n view slot hlive (get_dropWhere.mp hslot).1
  held r slot call hheld := by
    obtain ⟨hfor, hphase, hother⟩ := h.held r slot call hheld
    refine ⟨hfor, ?_, fun key other hslot => hother key other (get_dropWhere.mp hslot).1⟩
    rw [live_dropWhere]
    refine hphase.imp_left fun hphase => ?_
    rcases m.gates_dropWhere p slot.tx with heq | ⟨view, -, -, other, hslot, htx, -⟩
    · rw [heq, hphase]
    · exact (hother _ other hslot htx).elim
  alone := h.alone
  entered r slot call hheld := by
    obtain ⟨hidle, hregistering⟩ := h.entered r slot call hheld
    rcases m.gates_dropWhere p slot.tx with heq | ⟨view, -, hclosed, -⟩
    · rw [heq]
      exact ⟨hidle, hregistering⟩
    · rw [hclosed]
      exact ⟨nofun, nofun⟩
  received n view r call hreceived := by
    rw [received_dropWhere] at hreceived
    exact h.received n view r call hreceived
  once n n' view view' r call call' hreceived hreceived' := by
    rw [received_dropWhere] at hreceived hreceived'
    exact h.once n n' view view' r call call' hreceived hreceived'

/-- A call moves on, and not to waiting: to a phase that lives, has received and has a slot only
as it did before. -/
theorem setGate (hwaiting : ∀ view, phase ≠ .waiting view)
    (hslots : ∀ (key : String) (slot : PendingSlot), m.pending[key]? = some slot → slot.tx = n →
      phase = .sweeping slot.view)
    (hlive : ∀ view, phase.live = some view → (m.gates n).live = some view)
    (hheld : ∀ r slot call, m.resolvers r = .holding slot call → slot.tx = n →
      phase.live = none ∧ phase ≠ .idle ∧ ∀ view, phase ≠ .registering view)
    (hreceived : ∀ d, phase.received = some d → (m.gates n).received = some d) :
    (m.setGate n phase).Sound := by
  have hlives : ∀ n' view, ((m.setGate n phase).gates n').live = some view →
      (m.gates n').live = some view := by
    intro n' view hview
    rw [gates_setGate] at hview
    split at hview
    · rename_i heq
      rw [heq]
      exact hlive view hview
    · exact hview
  have hreceives : ∀ n' d, ((m.setGate n phase).gates n').received = some d →
      (m.gates n').received = some d := by
    intro n' d hd
    rw [gates_setGate] at hd
    split at hd
    · rename_i heq
      rw [heq]
      exact hreceived d hd
    · exact hd
  refine ⟨fun key slot hslot => ?_, fun n' view hphase => ?_, fun n' n'' view view' hview hview' =>
    h.apart n' n'' view view' (hlives n' view hview) (hlives n'' view' hview'),
    fun n' view slot hview => h.own n' view slot (hlives n' view hview),
    fun r slot call hslot => ?_, h.alone, fun r slot call hslot => ?_,
    fun n' view r call hd => h.received n' view r call (hreceives n' _ hd),
    fun n' n'' view view' r call call' hd hd' =>
      h.once n' n'' view view' r call call' (hreceives n' _ hd) (hreceives n'' _ hd')⟩
  · obtain ⟨hkey, hphase⟩ := h.slots key slot hslot
    refine ⟨hkey, ?_⟩
    rw [gates_setGate]
    split
    · rename_i heq
      exact Or.inr (hslots key slot hslot heq)
    · exact hphase
  · rw [gates_setGate] at hphase
    split at hphase
    · exact (hwaiting view hphase).elim
    · exact h.waiting n' view hphase
  · obtain ⟨hfor, hphase, hother⟩ := h.held r slot call hslot
    refine ⟨hfor, ?_, hother⟩
    rw [gates_setGate]
    split
    · rename_i heq
      exact Or.inr (hheld r slot call hslot heq).1
    · exact hphase
  · rw [gates_setGate]
    split
    · rename_i heq
      exact (hheld r slot call hslot heq).2
    · exact h.entered r slot call hslot

/-- A call of `resolve` returns, unless it holds the slot of a call that still waits. -/
theorem setReturned (result : Except String PendingToolPermission)
    (hfree : ∀ slot call, m.resolvers r = .holding slot call →
      ∀ view, m.gates slot.tx ≠ .waiting view) : (m.setResolver r (.returned result)).Sound := by
  have hholds : ∀ {r' slot call},
      (m.setResolver r (.returned result)).resolvers r' = .holding slot call →
        m.resolvers r' = .holding slot call := by
    intro r' slot call hheld
    rw [resolvers_setResolver] at hheld
    split at hheld
    · cases hheld
    · exact hheld
  refine ⟨h.slots, fun n view hphase => ?_, h.apart, h.own,
    fun r' slot call hheld => h.held r' slot call (hholds hheld),
    fun r' r'' slot slot' call call' hheld hheld' =>
      h.alone r' r'' slot slot' call call' (hholds hheld) (hholds hheld'),
    fun r' slot call hheld => h.entered r' slot call (hholds hheld),
    fun n view r' call hd => ?_, h.once⟩
  · refine (h.waiting n view hphase).imp_right ?_
    rintro ⟨r', call, hheld⟩
    refine ⟨r', call, ?_⟩
    rw [resolvers_setResolver, if_neg, hheld]
    rintro rfl
    exact hfree _ call hheld view hphase
  · obtain ⟨hrequest, hreturned⟩ := h.received n view r' call hd
    refine ⟨hrequest, ?_⟩
    rw [resolvers_setResolver]
    split
    · exact ⟨result, rfl⟩
    · exact hreturned

theorem insert (hphase : m.gates n = .registering view)
    (hfree : ∀ other view', (m.gates other).live = some view' → view'.key ≠ view.key) :
    ({ m with pending := m.pending.insert view.key ⟨view, n⟩ }.setGate n (.waiting view)).Sound := by
  have hother : ∀ {n'}, n' ≠ n →
      ({ m with pending := m.pending.insert view.key ⟨view, n⟩ }.setGate n
        (.waiting view)).gates n' = m.gates n' := by
    intro n' hne
    rw [gates_setGate, if_neg hne]
  have hself : ({ m with pending := m.pending.insert view.key ⟨view, n⟩ }.setGate n
      (.waiting view)).gates n = .waiting view := by
    rw [gates_setGate, if_pos rfl]
  have hslot : ∀ {key : String} {slot : PendingSlot},
      (m.pending.insert view.key ⟨view, n⟩)[key]? = some slot →
        (key = view.key ∧ slot = ⟨view, n⟩) ∨ (key ≠ view.key ∧ m.pending[key]? = some slot) := by
    intro key slot hget
    rw [get_insert] at hget
    split at hget
    · rename_i heq
      exact Or.inl ⟨heq.symm, (Option.some.inj hget).symm⟩
    · rename_i hne
      exact Or.inr ⟨Ne.symm hne, hget⟩
  have htx : ∀ {key : String} {slot : PendingSlot}, m.pending[key]? = some slot → slot.tx ≠ n := by
    rintro key slot hget rfl
    obtain ⟨-, hgate | hgate⟩ := h.slots key slot hget <;> rw [hphase] at hgate <;> cases hgate
  have hlives : ∀ {n' view'}, (({ m with pending := m.pending.insert view.key ⟨view, n⟩ }.setGate n
      (.waiting view)).gates n').live = some view' →
        (n' = n ∧ view' = view) ∨ (n' ≠ n ∧ (m.gates n').live = some view') := by
    intro n' view' hlive
    by_cases hne : n' = n
    · subst hne
      rw [hself] at hlive
      exact Or.inl ⟨rfl, (Option.some.inj hlive).symm⟩
    · rw [hother hne] at hlive
      exact Or.inr ⟨hne, hlive⟩
  have hheldTx : ∀ {r slot call}, m.resolvers r = .holding slot call → slot.tx ≠ n := by
    rintro r slot call hheld rfl
    exact (h.entered r slot call hheld).2 view hphase
  have hreceives : ∀ {n' d}, (({ m with pending := m.pending.insert view.key ⟨view, n⟩ }.setGate n
      (.waiting view)).gates n').received = some d → (m.gates n').received = some d := by
    intro n' d hd
    by_cases hne : n' = n
    · subst hne
      rw [hself] at hd
      cases hd
    · rwa [hother hne] at hd
  constructor
  · intro key slot hget
    rcases hslot hget with ⟨rfl, rfl⟩ | ⟨-, hget⟩
    · exact ⟨rfl, Or.inl hself⟩
    · rw [hother (htx hget)]
      exact h.slots key slot hget
  · intro n' view' hgate
    by_cases hne : n' = n
    · subst hne
      obtain rfl := waiting.inj (hself.symm.trans hgate)
      exact Or.inl (get_insert_self ..)
    · rw [hother hne] at hgate
      refine (h.waiting n' view' hgate).imp_left fun hget => ?_
      have hkey : view'.key ≠ view.key := hfree n' view' (by rw [hgate]; rfl)
      exact (get_insert_of_ne _ hkey.symm _).trans hget
  · intro n' n'' view' view'' hlive hlive' hkey
    rcases hlives hlive with ⟨rfl, rfl⟩ | ⟨-, hold⟩ <;>
      rcases hlives hlive' with ⟨rfl, rfl⟩ | ⟨-, hold'⟩
    · rfl
    · exact (hfree n'' view'' hold' hkey.symm).elim
    · exact (hfree n' view' hold hkey).elim
    · exact h.apart n' n'' view' view'' hold hold' hkey
  · intro n' view' slot hlive hget
    rcases hlives hlive with ⟨rfl, rfl⟩ | ⟨hne, hlive⟩ <;>
      rcases hslot hget with ⟨hkey, rfl⟩ | ⟨hkey, hget⟩
    · rfl
    · exact (hkey rfl).elim
    · exact (hfree n' view' hlive hkey).elim
    · exact h.own n' view' slot hlive hget
  · intro r slot call hheld
    obtain ⟨hfor, hgate, hothers⟩ := h.held r slot call hheld
    refine ⟨hfor, ?_, fun key other hget => ?_⟩
    · rwa [hother (hheldTx hheld)]
    · rcases hslot hget with ⟨-, rfl⟩ | ⟨-, hget⟩
      · exact (hheldTx hheld).symm
      · exact hothers key other hget
  · exact h.alone
  · intro r slot call hheld
    rw [hother (hheldTx hheld)]
    exact h.entered r slot call hheld
  · intro n' view' r call hd
    exact h.received n' view' r call (hreceives hd)
  · intro n' n'' view' view'' r call call' hd hd'
    exact h.once n' n'' view' view'' r call call' (hreceives hd) (hreceives hd')

theorem register (hphase : m.gates n = .registering view)
    (hfree : ∀ other view', (m.gates other).live = some view' → view'.key ≠ view.key) :
    (m.register n view).Sound := by
  have hdropped : (m.dropKey view.key).Sound := h.dropWhere _
  refine hdropped.insert ?_ fun other view' hlive => ?_
  · exact (gates_dropWhere_eq (by rw [hphase]; nofun)).trans hphase
  · rw [dropKey, live_dropWhere] at hlive
    exact hfree other view' hlive

theorem take (hphase : m.resolvers r = .idle) (hslot : m.pending[call.key]? = some slot)
    (hfor : slot.view.IsFor call) :
    ({ m with pending := m.pending.erase call.key }.setResolver r (.holding slot call)).Sound := by
  have hget : ∀ {key : String} {other : PendingSlot},
      (m.pending.erase call.key)[key]? = some other →
        key ≠ call.key ∧ m.pending[key]? = some other := by
    intro key other hother
    by_cases hkey : call.key = key
    · rw [hkey, Std.ExtTreeMap.getElem?_erase_self] at hother
      cases hother
    · exact ⟨Ne.symm hkey, (get_erase_of_ne _ hkey).symm.trans hother⟩
  have hholds : ∀ {r' slot' call'}, ({ m with pending := m.pending.erase call.key }.setResolver r
      (.holding slot call)).resolvers r' = .holding slot' call' →
        (r' = r ∧ slot' = slot ∧ call' = call) ∨
          (r' ≠ r ∧ m.resolvers r' = .holding slot' call') := by
    intro r' slot' call' hheld
    rw [resolvers_setResolver] at hheld
    split at hheld
    · rename_i heq
      obtain ⟨rfl, rfl⟩ := ResolverPhase.holding.inj hheld
      exact Or.inl ⟨heq, rfl, rfl⟩
    · rename_i hne
      exact Or.inr ⟨hne, hheld⟩
  obtain ⟨hslotKey, hslotGate⟩ := h.slots _ slot hslot
  constructor
  · intro key other hother
    exact h.slots key other (hget hother).2
  · intro n view hgate
    rcases h.waiting n view hgate with hview | ⟨r', call', hheld⟩
    · by_cases hkey : call.key = view.key
      · rw [← hkey, hslot] at hview
        refine Or.inr ⟨r, call, ?_⟩
        rw [resolvers_setResolver, if_pos rfl, Option.some.inj hview]
      · exact Or.inl ((get_erase_of_ne _ hkey).trans hview)
    · refine Or.inr ⟨r', call', ?_⟩
      rw [resolvers_setResolver, if_neg, hheld]
      rintro rfl
      rw [hphase] at hheld
      cases hheld
  · exact h.apart
  · intro n view other hlive hother
    exact h.own n view other hlive (hget hother).2
  · intro r' slot' call' hheld
    rcases hholds hheld with ⟨-, rfl, rfl⟩ | ⟨-, hheld⟩
    · refine ⟨hfor, hslotGate.imp_right fun hsweeping => ?_, fun key other hother htx => ?_⟩
      · exact congrArg live hsweeping
      · obtain ⟨hne, hother⟩ := hget hother
        obtain ⟨hkey, hgate⟩ := h.slots key other hother
        rw [htx] at hgate
        have hview : other.view = slot'.view := by
          rcases hslotGate with hs | hs <;> rw [hs] at hgate <;> simpa [eq_comm] using hgate
        exact hne (hkey.trans (by rw [hview, ← hslotKey]))
    · obtain ⟨hfor', hgate, hothers⟩ := h.held r' slot' call' hheld
      exact ⟨hfor', hgate, fun key other hother => hothers key other (hget hother).2⟩
  · intro r' r'' slot' slot'' call' call'' hheld hheld' htx
    rcases hholds hheld with ⟨rfl, rfl, rfl⟩ | ⟨-, hold⟩ <;>
      rcases hholds hheld' with ⟨rfl, rfl, rfl⟩ | ⟨-, hold'⟩
    · rfl
    · exact ((h.held r'' slot'' call'' hold').2.2 _ slot' hslot htx).elim
    · exact ((h.held r' slot' call' hold).2.2 _ slot'' hslot htx.symm).elim
    · exact h.alone r' r'' slot' slot'' call' call'' hold hold' htx
  · intro r' slot' call' hheld
    rcases hholds hheld with ⟨-, rfl, rfl⟩ | ⟨-, hheld⟩
    · have hgate : m.gates slot'.tx ≠ .idle ∧ ∀ view, m.gates slot'.tx ≠ .registering view := by
        rcases hslotGate with hs | hs <;> rw [hs] <;> exact ⟨nofun, nofun⟩
      exact hgate
    · exact h.entered r' slot' call' hheld
  · intro n view r' call' hd
    obtain ⟨hrequest, result, hreturned⟩ := h.received n view r' call' hd
    refine ⟨hrequest, result, ?_⟩
    rw [resolvers_setResolver, if_neg, hreturned]
    rintro rfl
    rw [hphase] at hreturned
    cases hreturned
  · exact h.once

theorem resolve (hphase : m.resolvers r = .idle)
    (hfor : ∀ slot, m.pending[call.key]? = some slot → slot.view.IsFor call) :
    (m.resolve r call).Sound := by
  have hfree : ∀ slot call', m.resolvers r = .holding slot call' →
      ∀ view, m.gates slot.tx ≠ .waiting view := by
    intro slot call' hheld
    rw [hphase] at hheld
    cases hheld
  have htake : (ToolPermissionManager.resolve.take m r call).Sound := by
    unfold ToolPermissionManager.resolve.take
    cases hslot : m.pending[call.key]? with
    | none => exact h.setReturned _ hfree
    | some slot => exact h.take hphase hslot (hfor slot hslot)
  unfold ToolPermissionManager.resolve
  split
  · split
    · exact h.setReturned _ hfree
    · exact htake
  · exact htake

theorem decide (hheld : m.resolvers r = .holding slot call)
    (hgate : m.gates slot.tx = .waiting view) (result : Except String PendingToolPermission) :
    ((m.setGate slot.tx (.decided view r call)).setResolver r (.returned result)).Sound := by
  obtain ⟨hfor, hphase, hothers⟩ := h.held r slot call hheld
  have hview : view = slot.view := by
    rcases hphase with hphase | hdead
    · exact GatePhase.waiting.inj (hgate.symm.trans hphase)
    · rw [hgate] at hdead
      cases hdead
  subst hview
  have hother : ∀ {n}, n ≠ slot.tx → ((m.setGate slot.tx (.decided slot.view r call)).setResolver r
      (.returned result)).gates n = m.gates n := by
    intro n hne
    exact (gates_setGate ..).trans (if_neg hne)
  have hself : ((m.setGate slot.tx (.decided slot.view r call)).setResolver r
      (.returned result)).gates slot.tx = .decided slot.view r call :=
    (gates_setGate ..).trans (if_pos rfl)
  have hlives : ∀ n, (((m.setGate slot.tx (.decided slot.view r call)).setResolver r
      (.returned result)).gates n).live = (m.gates n).live := by
    intro n
    by_cases hne : n = slot.tx
    · rw [hne, hself, hgate]
      rfl
    · rw [hother hne]
  have hholds : ∀ {r' slot' call'}, ((m.setGate slot.tx (.decided slot.view r call)).setResolver r
      (.returned result)).resolvers r' = .holding slot' call' →
        r' ≠ r ∧ m.resolvers r' = .holding slot' call' := by
    intro r' slot' call' hheld'
    rw [resolvers_setResolver] at hheld'
    split at hheld'
    · cases hheld'
    · rename_i hne
      exact ⟨hne, hheld'⟩
  have htx : ∀ {r' slot' call'}, r' ≠ r → m.resolvers r' = .holding slot' call' →
      slot'.tx ≠ slot.tx := fun hne hheld' heq => hne (h.alone _ _ _ _ _ _ hheld' hheld heq)
  have hreturns : ∀ {r' other}, m.resolvers r' = .returned other →
      ((m.setGate slot.tx (.decided slot.view r call)).setResolver r
        (.returned result)).resolvers r' = .returned other := by
    intro r' other hreturned
    rw [resolvers_setResolver, if_neg]
    · exact hreturned
    · rintro rfl
      rw [hheld] at hreturned
      cases hreturned
  have hfresh : ∀ {n view' call'}, (m.gates n).received ≠ some (view', r, call') := by
    intro n view' call' hd
    obtain ⟨-, other, hreturned⟩ := h.received n view' r call' hd
    rw [hheld] at hreturned
    cases hreturned
  constructor
  · intro key other hget
    rw [hother (hothers key other hget)]
    exact h.slots key other hget
  · intro n view' hwaiting
    have hne : n ≠ slot.tx := by
      rintro rfl
      rw [hself] at hwaiting
      cases hwaiting
    rw [hother hne] at hwaiting
    refine (h.waiting n view' hwaiting).imp_right ?_
    rintro ⟨r', call', hheld'⟩
    refine ⟨r', call', ?_⟩
    rw [resolvers_setResolver, if_neg]
    · exact hheld'
    · rintro rfl
      rw [hheld] at hheld'
      obtain ⟨rfl, -⟩ := ResolverPhase.holding.inj hheld'
      exact hne rfl
  · intro n n' view' view'' hlive hlive'
    rw [hlives] at hlive hlive'
    exact h.apart n n' view' view'' hlive hlive'
  · intro n view' other hlive
    rw [hlives] at hlive
    exact h.own n view' other hlive
  · intro r' slot' call' hheld'
    obtain ⟨hne, hheld'⟩ := hholds hheld'
    rw [hother (htx hne hheld')]
    exact h.held r' slot' call' hheld'
  · intro r' r'' slot' slot'' call' call'' hheld' hheld''
    exact h.alone r' r'' slot' slot'' call' call'' (hholds hheld').2 (hholds hheld'').2
  · intro r' slot' call' hheld'
    obtain ⟨hne, hheld'⟩ := hholds hheld'
    rw [hother (htx hne hheld')]
    exact h.entered r' slot' call' hheld'
  · intro n view' r' call' hd
    by_cases hne : n = slot.tx
    · rw [hne, hself] at hd
      obtain ⟨rfl, rfl, rfl⟩ : some slot.view = view' ∧ r = r' ∧ call = call' := by
        simpa [GatePhase.received] using hd
      exact ⟨⟨_, rfl, hfor⟩, result, (resolvers_setResolver ..).trans (if_pos rfl)⟩
    · rw [hother hne] at hd
      obtain ⟨hrequest, other, hreturned⟩ := h.received n view' r' call' hd
      exact ⟨hrequest, other, hreturns hreturned⟩
  · intro n n' view' view'' r' call' call'' hd hd'
    by_cases hne : n = slot.tx <;> by_cases hne' : n' = slot.tx
    · rw [hne, hne']
    · rw [hne, hself] at hd
      rw [hother hne'] at hd'
      obtain ⟨-, rfl, -⟩ : some slot.view = view' ∧ r = r' ∧ call = call' := by
        simpa [GatePhase.received] using hd
      exact (hfresh hd').elim
    · rw [hne', hself] at hd'
      rw [hother hne] at hd
      obtain ⟨-, rfl, -⟩ : some slot.view = view'' ∧ r = r' ∧ call = call'' := by
        simpa [GatePhase.received] using hd'
      exact (hfresh hd).elim
    · rw [hother hne] at hd
      rw [hother hne'] at hd'
      exact h.once n n' view' view'' r' call' call'' hd hd'

theorem send (hheld : m.resolvers r = .holding slot call) : (m.send r slot call).Sound := by
  unfold ToolPermissionManager.send
  cases hgate : m.gates slot.tx with
  | waiting view => exact h.decide hheld hgate _
  | _ =>
    refine h.setReturned _ fun slot' call' hheld' view hwaiting => ?_
    obtain ⟨rfl, -⟩ := ResolverPhase.holding.inj (hheld.symm.trans hheld')
    rw [hgate] at hwaiting
    cases hwaiting

theorem advance (hold : ∀ view, m.gates n ≠ .waiting view ∧ m.gates n ≠ .sweeping view)
    (hwaiting : ∀ view, phase ≠ .waiting view)
    (hlive : ∀ view, phase.live = some view → (m.gates n).live = some view)
    (hentered : (m.gates n ≠ .idle ∧ ∀ view, m.gates n ≠ .registering view) →
      phase ≠ .idle ∧ ∀ view, phase ≠ .registering view)
    (hreceived : ∀ d, phase.received = some d → (m.gates n).received = some d) :
    (m.setGate n phase).Sound := by
  refine h.setGate hwaiting (fun key slot hslot htx => ?_) hlive (fun r slot call hheld htx => ?_)
    hreceived
  · obtain ⟨-, hphase⟩ := h.slots key slot hslot
    rw [htx] at hphase
    rcases hphase with hphase | hphase
    · exact ((hold _).1 hphase).elim
    · exact ((hold _).2 hphase).elim
  · obtain ⟨-, hphase, -⟩ := h.held r slot call hheld
    have hkept := h.entered r slot call hheld
    rw [htx] at hphase hkept
    rcases hphase with hphase | hdead
    · exact ((hold _).1 hphase).elim
    · refine ⟨?_, hentered hkept⟩
      cases hnew : phase.live with
      | none => rfl
      | some view =>
        rw [hlive view hnew] at hdead
        cases hdead

theorem cancel (hlive : (m.gates n).live = some view) : (m.setGate n (.sweeping view)).Sound := by
  refine h.setGate nofun (fun key slot hslot htx => ?_) nofun
    (fun r slot call hheld htx => ⟨rfl, nofun, nofun⟩) nofun
  obtain ⟨-, hphase | hphase⟩ := h.slots key slot hslot
  · rw [htx] at hphase
    rw [hphase] at hlive
    rw [Option.some.inj hlive]
  · rw [htx] at hphase
    exact ((isWaiting_of_live hlive).2.2 _ hphase).elim

theorem sweep (hphase : m.gates n = .sweeping view) :
    ((m.dropSession view.sessionKey).setGate n (.finished (some view) .cancelled)).Sound := by
  have hdropped : (m.dropSession view.sessionKey).Sound := h.dropWhere _
  have hgate : (m.dropSession view.sessionKey).gates n = .sweeping view :=
    (gates_dropWhere_eq (by rw [hphase]; nofun)).trans hphase
  refine hdropped.setGate nofun (fun key slot hslot htx => ?_) nofun
    (fun r slot call hheld htx => ⟨rfl, nofun, nofun⟩) nofun
  obtain ⟨-, hslotGate⟩ := hdropped.slots key slot hslot
  have hkept := (get_dropWhere.mp hslot).2
  rw [htx, hgate] at hslotGate
  rcases hslotGate with hslotGate | hslotGate
  · cases hslotGate
  · rw [decide_eq_false_iff_not, sweeping.inj hslotGate] at hkept
    exact (hkept rfl).elim

/-- **Every step after which keys are apart keeps the slots and the channels fitting.** -/
theorem step {act : PermissionAct} {m' : ToolPermissionManager} (hstep : PermissionStep m act m')
    (hapart : m.KeysApart act) : m'.Sound := by
  cases hstep with
  | @enter n entry view hphase =>
    have hmode : gateMode entry view = .registering view ∨
        ∃ outcome, gateMode entry view = .finished none outcome ∧
          (gateMode entry view).received = none := by
      rcases entry with - | ⟨mode, type⟩
      · exact Or.inr ⟨_, rfl, rfl⟩
      · cases mode
        · exact Or.inr ⟨_, rfl, rfl⟩
        · exact Or.inl rfl
    refine h.advance (fun _ => by rw [hphase]; exact ⟨nofun, nofun⟩) ?_ ?_
      (fun hold => (hold.1 hphase).elim) ?_ <;>
      rcases hmode with hmode | ⟨outcome, hmode, hnone⟩
    · rw [hmode]
      exact nofun
    · rw [hmode]
      exact nofun
    · rw [hmode]
      exact nofun
    · rw [hmode]
      exact nofun
    · rw [hmode]
      exact nofun
    · rw [hnone]
      exact nofun
  | register hphase => exact h.register hphase (hapart _ hphase)
  | receive hphase =>
    refine h.advance (fun _ => by rw [hphase]; exact ⟨nofun, nofun⟩) nofun (fun _ hlive => ?_)
      (fun _ => ⟨nofun, nofun⟩) (fun _ hreceived => ?_)
    · rw [hphase]
      exact hlive
    · rw [hphase]
      exact hreceived
  | hangUp hphase =>
    refine h.advance (fun _ => by rw [hphase]; exact ⟨nofun, nofun⟩) nofun (fun _ hlive => ?_)
      (fun _ => ⟨nofun, nofun⟩) nofun
    rw [hphase]
    exact hlive
  | @remove n view outcome hphase =>
    have hdropped : (m.dropKey view.key).Sound := h.dropWhere _
    have hgate : (m.dropKey view.key).gates n = .removing view outcome :=
      (gates_dropWhere_eq (by rw [hphase]; nofun)).trans hphase
    refine hdropped.advance (fun _ => by rw [hgate]; exact ⟨nofun, nofun⟩) nofun nofun
      (fun _ => ⟨nofun, nofun⟩) (fun _ hreceived => ?_)
    rw [hgate]
    cases outcome with
    | decided r call => exact hreceived
    | _ => cases hreceived
  | cancel hlive => exact h.cancel hlive
  | sweep hphase => exact h.sweep hphase
  | resolve call hphase => exact h.resolve hphase hapart
  | send hphase => exact h.send hphase
  | dropSession sessionKey => exact h.dropWhere _

end Sound

/-! ## What follows -/

/-- **A decision reaches exactly the call it was given for.**  A resolver that holds a slot sends
to the call that waits for it, unless that one is cancelled; a call that waits is shown to the
clients of its session and can be resolved, unless its decision is on the way; the removal of a
call that has woken up takes nothing; and requests of different sessions have different keys. -/
structure Delivers (m : ToolPermissionManager) : Prop where
  received : ∀ n view r call, (m.gates n).received = some (view, r, call) →
    ∃ request, view = some request ∧ request.IsFor call
  once : ∀ n n' view view' r call call', (m.gates n).received = some (view, r, call) →
    (m.gates n').received = some (view', r, call') → n = n'
  reaches : ∀ r slot call, m.resolvers r = .holding slot call → slot.view.IsFor call ∧
    ((m.send r slot call).gates slot.tx = .decided slot.view r call ∨
      (m.gates slot.tx).live = none)
  waiting : ∀ n view, m.gates n = .waiting view →
    (view ∈ m.pendingForSession view.sessionKey ∧
      ∀ r call, view.IsFor call → (∀ feedback, call.decision = .deny feedback →
        trim feedback ≠ "") → (m.resolve r call).resolvers r = .holding ⟨view, n⟩ call) ∨
    ∃ r call, m.resolvers r = .holding ⟨view, n⟩ call ∧ view.IsFor call
  removal : ∀ n view outcome, m.gates n = .removing view outcome →
    (m.dropKey view.key).pending = m.pending
  sessions : ∀ n n' view view', (m.gates n).live = some view → (m.gates n').live = some view' →
    view.sessionKey ≠ view'.sessionKey → view.key ≠ view'.key

theorem key_eq_of_isFor (h : view.IsFor call) : call.key = view.key := by
  obtain ⟨hsession, hcall, hphase⟩ := h
  rw [ResolveCall.key, PendingToolPermission.key, hsession, hcall, hphase]

theorem mem_pendingForSession {key : String} (h : m.pending[key]? = some slot) :
    slot.view ∈ m.pendingForSession slot.view.sessionKey := by
  unfold pendingForSession
  rw [List.mem_mergeSort]
  refine List.mem_map.mpr ⟨slot, List.mem_filter.mpr ⟨?_, by simp⟩, rfl⟩
  exact List.mem_map.mpr ⟨(key, slot), mem_toList.mpr h, rfl⟩

theorem resolvers_resolve (hslot : m.pending[call.key]? = some slot)
    (hdeny : ∀ feedback, call.decision = .deny feedback → trim feedback ≠ "") :
    (m.resolve r call).resolvers r = .holding slot call := by
  have htake : (resolve.take m r call).resolvers r = .holding slot call := by
    unfold resolve.take
    rw [hslot]
    exact (resolvers_setResolver ..).trans (if_pos rfl)
  unfold resolve
  split
  · rename_i feedback hdecision
    rw [if_neg (hdeny feedback hdecision)]
    exact htake
  · exact htake

theorem Sound.delivers (h : m.Sound) : m.Delivers where
  received n view r call hd := (h.received n view r call hd).1
  once := h.once
  reaches r slot call hheld := by
    obtain ⟨hfor, hphase, -⟩ := h.held r slot call hheld
    refine ⟨hfor, hphase.imp_left fun hwaiting => ?_⟩
    unfold ToolPermissionManager.send
    rw [hwaiting]
    exact (gates_setGate ..).trans (if_pos rfl)
  waiting n view hphase := by
    rcases h.waiting n view hphase with hslot | ⟨r, call, hheld⟩
    · refine Or.inl ⟨mem_pendingForSession hslot, fun r call hfor hdeny => ?_⟩
      exact resolvers_resolve (by rw [key_eq_of_isFor hfor, hslot]) hdeny
    · exact Or.inr ⟨r, call, hheld, (h.held r _ call hheld).1⟩
  removal n view outcome hphase := by
    have hlive : (m.gates n).live = some view := by rw [hphase]; rfl
    have hnone := h.no_slot hlive (by rw [hphase]; nofun)
    refine OrderedMap.ext fun key => Option.ext fun slot => ?_
    rw [dropKey, get_dropWhere]
    refine and_iff_left_of_imp fun hslot => ?_
    rw [decide_eq_false_iff_not]
    rintro rfl
    rw [hnone] at hslot
    cases hslot
  sessions n n' view view' hlive hlive' hne hkey := by
    obtain rfl := h.apart n n' view view' hlive hlive' hkey
    rw [hlive] at hlive'
    exact hne (by rw [Option.some.inj hlive'])

/-- **When permissions are delivered.**  In every run in which requests are registered and
decisions are looked up only where keys stay apart, every decision reaches its call. -/
theorem permissions_delivered {acts : List PermissionAct} (hrun : Run ApartStep new acts m) :
    m.Delivers :=
  (hrun.invariant (P := Sound) (fun _ _ _ h hstep => h.step hstep.1 hstep.2) .new).delivers

/-! ## Runs -/

def writeRequest (sessionKey runId : String) : PendingToolPermission where
  sessionKey := sessionKey
  runId := runId
  toolCallId := "call-1"
  toolName := "write_file"
  phase := .beforeExecution

def approval (sessionKey : String) : ResolveCall where
  sessionKey := sessionKey
  toolCallId := "call-1"
  phase := .beforeExecution
  decision := .approve

/-- A request of the session `telegram` for a call whose identity has a colon. -/
def botRequest : PendingToolPermission :=
  { writeRequest "telegram" "run-1" with toolCallId := "bot:call-1" }

theorem permissions_delivered_approval : ∃ m acts, Run ApartStep new acts m ∧
    m.gates 0 = .finished (some (writeRequest "main" "run-1")) (.decided 0 (approval "main")) ∧
    m.Delivers := by
  have hrun : ∃ m, Run ApartStep new [.gate 0, .register 0, .resolve 0 (approval "main"), .send 0,
      .gate 0, .gate 0] m ∧
      m.gates 0 = .finished (some (writeRequest "main" "run-1"))
        (.decided 0 (approval "main")) := by
    refine ⟨_, .cons ⟨.enter (some (.moderated, .manual)) (writeRequest "main" "run-1") rfl,
      trivial⟩ <| .cons ⟨.register rfl, ?_⟩ <| .cons ⟨.resolve (approval "main") rfl, ?_⟩ <|
      .cons ⟨@PermissionStep.send _ 0 ⟨writeRequest "main" "run-1", 0⟩ (approval "main")
        (by decide), trivial⟩ <|
      .cons ⟨@PermissionStep.receive _ 0 (writeRequest "main" "run-1") 0 (approval "main")
        (by decide), trivial⟩ <|
      .cons ⟨@PermissionStep.remove _ 0 (writeRequest "main" "run-1") (.decided 0 (approval "main"))
        (by decide), trivial⟩ <| .nil _, by decide⟩
    · intro view _ other view' hlive
      rw [gates_setGate] at hlive
      split at hlive <;> cases hlive
    · intro slot hslot
      have hown : ((new.setGate 0 (gateMode (some (.moderated, .manual))
          (writeRequest "main" "run-1"))).register 0
            (writeRequest "main" "run-1")).pending[(approval "main").key]? =
              some ⟨writeRequest "main" "run-1", 0⟩ := by
        decide
      obtain rfl := Option.some.inj (hown.symm.trans hslot)
      exact ⟨rfl, rfl, rfl⟩
  obtain ⟨m, hrun, hgate⟩ := hrun
  exact ⟨m, _, hrun, hgate, permissions_delivered hrun⟩

/-- The same call is asked for in two runs of a session: the waiter of the first request, which
was replaced, takes the slot of the second one out, and nobody has decided.  A call of another
session has the same key: its decision goes to the wrong request. -/
theorem keys_meet :
    (∃ m m' acts, Run PermissionStep new acts m ∧
      m.gates 0 = .removing (writeRequest "main" "run-1") .cancelled ∧
      m.gates 1 = .waiting (writeRequest "main" "run-2") ∧ PermissionStep m (.gate 0) m' ∧
      m'.gates 1 = .closed (writeRequest "main" "run-2")) ∧
    ∃ m acts view, Run PermissionStep new acts m ∧
      (m.gates 0).received = some (some view, 0, approval "telegram:bot") ∧
      view.sessionKey = "telegram" ∧ ¬view.IsFor (approval "telegram:bot") := by
  constructor
  · refine ⟨_, _, [.gate 0, .gate 1, .register 0, .register 1, .gate 0],
      .cons (.enter (some (.moderated, .manual)) (writeRequest "main" "run-1") rfl) <|
      .cons (.enter (some (.moderated, .manual)) (writeRequest "main" "run-2") rfl) <|
      .cons (.register rfl) <| .cons (.register rfl) <|
      .cons (@PermissionStep.hangUp _ 0 (writeRequest "main" "run-1") (by decide)) <|
      .nil _, by decide +kernel, by decide +kernel,
      @PermissionStep.remove _ 0 (writeRequest "main" "run-1") .cancelled (by decide +kernel),
      by decide +kernel⟩
  · refine ⟨_, [.gate 0, .register 0, .resolve 0 (approval "telegram:bot"), .send 0],
      botRequest, .cons (.enter (some (.moderated, .manual)) botRequest rfl) <|
      .cons (.register rfl) <| .cons (.resolve (approval "telegram:bot") rfl) <|
      .cons (@PermissionStep.send _ 0 ⟨botRequest, 0⟩ (approval "telegram:bot")
        (by decide)) <| .nil _, by decide, rfl, ?_⟩
    rintro ⟨hsession, -⟩
    exact absurd hsession (by decide)

end ToolPermissionManager

end Chelix.Chat
