import Chelix.Library.Results
import Chelix.Sessions.SessionTree

/-!
# The session tree stays a forest

Each operation changes the parent of at most one session, or removes sessions.  A session that is
created or reparented without a check is nobody's parent at that moment, and a patch is checked
against everything above the new parent.

* **`session_tree_stays_forest`**: every sequence of operations.
-/

namespace Chelix.Sessions

open Chelix.Library Relation Option

namespace SessionStore

/-- Following the parents from a session never leads back to it. -/
def Forest (s : SessionStore) : Prop := Acyclic s.parentOf

variable {parent : String} {s' : SessionStore}

section Rows

variable {s : SessionStore} {key : String}

theorem fetchEntry_eq_some_iff {row : SessionRow} :
    s.fetchEntry key = some row ↔ row ∈ s.rows ∧ row.key = key := by
  constructor
  · intro h
    exact ⟨List.mem_of_find?_eq_some h, by simpa using List.find?_some h⟩
  · rintro ⟨hmem, rfl⟩
    obtain ⟨found, hfound⟩ : ∃ found, s.fetchEntry row.key = some found :=
      isSome_iff_exists.mp (List.find?_isSome.mpr ⟨row, hmem, decide_eq_true rfl⟩)
    have hkey : found.key = row.key := by simpa using List.find?_some hfound
    rw [hfound, List.inj_on_of_nodup_map s.keys (List.mem_of_find?_eq_some hfound) hmem hkey]

theorem fetchEntry_eq_none_iff : s.fetchEntry key = none ↔ key ∉ s.rows.map (·.key) := by
  rw [fetchEntry, List.find?_eq_none]
  simp only [decide_eq_true_eq, List.mem_map, not_exists, not_and]

theorem parentOf_eq_some_iff :
    s.parentOf key = some parent ↔
      ∃ row ∈ s.rows, row.key = key ∧ row.parentSessionKey = some parent := by
  rw [parentOf, bind_eq_some_iff]
  simp only [fetchEntry_eq_some_iff, and_assoc]

theorem mem_of_parentOf (h : s.parentOf key = some parent) :
    key ∈ s.rows.map (·.key) := by
  obtain ⟨row, hmem, rfl, -⟩ := parentOf_eq_some_iff.mp h
  exact List.mem_map_of_mem hmem

theorem parentOf_ne_of_rows (h : ∀ row ∈ s.rows, row.parentSessionKey ≠ some key) (a : String) :
    s.parentOf a ≠ some key := by
  intro hparent
  obtain ⟨row, hmem, -, hrow⟩ := parentOf_eq_some_iff.mp hparent
  exact h row hmem hrow

/-! ## What the statements do to the parents -/

theorem parentOf_insert {row : SessionRow} (h : s.insert row = some s') :
    s'.parentOf = Function.update s.parentOf row.key row.parentSessionKey := by
  unfold insert at h
  split at h
  · cases h
  · next hnew =>
      cases h
      funext a
      have hfind : ∀ b, ((s.rows ++ [row]).find? fun r => r.key = b) =
          (s.fetchEntry b).or (if row.key = b then some row else none) := by
        intro b
        rw [List.find?_append, fetchEntry, List.find?_singleton]
        simp only [decide_eq_true_eq]
      show ((s.rows ++ [row]).find? fun r => r.key = a).bind (·.parentSessionKey) = _
      rw [hfind]
      by_cases heq : a = row.key
      · rw [heq, fetchEntry_eq_none_iff.mpr hnew, if_pos rfl, Function.update_self]
        rfl
      · rw [if_neg (Ne.symm heq), or_none, Function.update_of_ne heq]
        rfl

theorem fetchEntry_update (change : SessionRow → SessionRow) (a : String) :
    (s.update key change).fetchEntry a = (s.fetchEntry a).map (withKey key change) := by
  show (s.rows.map (withKey key change)).find? _ = _
  rw [List.find?_map, fetchEntry]
  congr 2
  funext row
  simp only [Function.comp_apply, withKey_key]

theorem parentOf_update {change : SessionRow → SessionRow} {entry : SessionRow}
    (hentry : s.fetchEntry key = some entry) :
    (s.update key change).parentOf =
      Function.update s.parentOf key (change entry).parentSessionKey := by
  funext a
  rw [parentOf, fetchEntry_update]
  by_cases heq : a = key
  · have hkey := (fetchEntry_eq_some_iff.mp hentry).2
    rw [heq, hentry, Function.update_self, map_some, bind_some, withKey,
      if_pos hkey]
  · rw [Function.update_of_ne heq, parentOf]
    cases hfound : s.fetchEntry a with
    | none => rfl
    | some row =>
      have hne : row.key ≠ key := (fetchEntry_eq_some_iff.mp hfound).2.symm ▸ heq
      rw [map_some, bind_some, bind_some, withKey, if_neg hne]

theorem parentOf_update_of_kept {change : SessionRow → SessionRow}
    (hkept : ∀ row, (change row).parentSessionKey = row.parentSessionKey) :
    (s.update key change).parentOf = s.parentOf := by
  funext a
  rw [parentOf, fetchEntry_update, parentOf]
  cases s.fetchEntry a with
  | none => rfl
  | some row =>
    rw [map_some, bind_some, bind_some, withKey]
    split
    · exact hkept row
    · rfl

theorem parentOf_delete {drop : SessionRow → Bool} {a b : String}
    (h : (s.delete drop).parentOf a = some b) : s.parentOf a = some b := by
  obtain ⟨row, hmem, hkey, hparent⟩ := parentOf_eq_some_iff.mp h
  exact parentOf_eq_some_iff.mpr ⟨row, (List.mem_filter.mp hmem).1, hkey, hparent⟩

theorem Forest.delete (h : s.Forest) (drop : SessionRow → Bool) : (s.delete drop).Forest :=
  h.mono fun _ _ => parentOf_delete

end Rows

/-! ## The check of a new parent -/

section Patch

variable {s : SessionStore} {key : String} {readBinding : String → Option ChannelBinding}

theorem createsCycle_iff :
    s.createsCycle key parent = true ↔ ReflTransGen (Up s.parentOf) parent key := by
  have hmem : key ∈ ancestors s.parentOf ((s.rows.map (·.key)).length + 1) [] parent ↔
      ReflTransGen (Up s.parentOf) parent key :=
    mem_ancestors_iff fun a b h => mem_of_parentOf h
  rw [List.length_map] at hmem
  rw [createsCycle, decide_eq_true_eq, hmem]

/-- **What the check accepts**: the session is no sub-agent, the parent exists, and the result has
no cycle. -/
theorem validateParentPatch_some_ok_iff (h : s.Forest) {entry : SessionRow} :
    s.validateParentPatch key entry (some parent) = .ok () ↔
      entry.promptProfile ≠ .subagent ∧ s.fetchEntry parent ≠ none ∧
        Acyclic (Function.update s.parentOf key (some parent)) := by
  rw [acyclic_update_iff h, ← createsCycle_iff, validateParentPatch]
  split
  · next hsubagent => exact iff_of_false nofun fun h => h.1 hsubagent
  · next hchat =>
      split
      · next hself =>
          have hcycle : s.createsCycle key parent = true :=
            createsCycle_iff.mpr (hself ▸ .refl)
          exact iff_of_false nofun fun h => h.2.2 hcycle
      · split
        · next hmissing => exact iff_of_false nofun fun h => h.2.1 hmissing
        · next hexists =>
            split
            · next hcycle => exact iff_of_false nofun fun h => h.2.2 hcycle
            · next hnone => exact iff_of_true rfl ⟨hchat, hexists, hnone⟩

theorem patchSession_eq_ok {patch : SessionPatch}
    (h : s.patchSession readBinding key patch = .ok s') :
    ∃ current, s.fetchEntry key = some current ∧
      (patch.isEmpty = true ∧ s' = s ∨
        (∀ parent, patch.parentSessionKey = some parent →
          s.validateParentPatch key current parent = .ok ()) ∧
        s' = s.update key patch.change) := by
  rw [patchSession] at h
  split at h
  · cases h
  · next current hcurrent =>
      refine ⟨current, hcurrent, ?_⟩
      split at h
      · next hempty =>
          cases h
          exact .inl ⟨hempty, rfl⟩
      · refine .inr ?_
        obtain ⟨⟨⟩, hvalid, h⟩ := bind_eq_ok.mp h
        obtain ⟨⟨⟩, hparent, -⟩ := bind_eq_ok.mp hvalid
        split at h
        · cases h
          refine ⟨fun parent heq => ?_, rfl⟩
          rw [heq] at hparent
          exact hparent
        · cases h

/-- **When a patch with a new parent is accepted**: the check accepts the parent, and the other
columns of the patch are accepted as well. -/
theorem patchSession_ok_iff (h : s.Forest) {patch : SessionPatch}
    (hparent : patch.parentSessionKey = some (some parent)) {current : SessionRow}
    (hcurrent : s.fetchEntry key = some current) :
    (∃ s', s.patchSession readBinding key patch = .ok s') ↔
      (current.promptProfile ≠ .subagent ∧ s.fetchEntry parent ≠ none ∧
        Acyclic (s.update key patch.change).parentOf) ∧
      (patch.archived = some true → s.validateArchivePatch readBinding current = .ok ()) ∧
      s.projectExists patch = true := by
  have hempty : patch.isEmpty = false := by
    simp [SessionPatch.isEmpty, hparent]
  have hchange : (patch.change current).parentSessionKey = some parent := by
    rw [SessionPatch.change, hparent]
    rfl
  rw [parentOf_update hcurrent, hchange, ← validateParentPatch_some_ok_iff h, patchSession,
    hcurrent]
  simp only [hempty, Bool.false_eq_true, if_false, SessionPatch.validate, hparent, elim_some]
  constructor
  · rintro ⟨s', hok⟩
    obtain ⟨⟨⟩, hvalid, hok⟩ := bind_eq_ok.mp hok
    obtain ⟨⟨⟩, hvalid, harchive⟩ := bind_eq_ok.mp hvalid
    refine ⟨hvalid, fun harchived => ?_, ?_⟩
    · rw [if_pos harchived] at harchive
      exact harchive
    · by_contra hproject
      rw [if_neg hproject] at hok
      cases hok
  · rintro ⟨hvalid, harchive, hproject⟩
    refine ⟨s.update key patch.change, bind_eq_ok.mpr ⟨(), bind_eq_ok.mpr ⟨(), hvalid, ?_⟩, ?_⟩⟩
    · split
      · next harchived => exact harchive harchived
      · rfl
    · rw [if_pos hproject]

end Patch

/-! ## Operations -/

/-- A sub-agent session is created, and a parent is set, for a key that no session names as its
parent, and not for itself. -/
def ForLeaf (s : SessionStore) : SessionOp → Prop
  | .createSubagentSession key _ parentSessionKey _ _ _ =>
    (∀ row ∈ s.rows, row.parentSessionKey ≠ some key) ∧ parentSessionKey ≠ key
  | .setParent key parentSessionKey _ =>
    (∀ row ∈ s.rows, row.parentSessionKey ≠ some key) ∧ parentSessionKey ≠ some key
  | _ => True

section Operations

variable {s : SessionStore} {readBinding : String → Option ChannelBinding}

/-- A new session without a parent, whoever names it as a parent already. -/
theorem Forest.insert_root (h : s.Forest) {row : SessionRow}
    (hinsert : s.insert row = some s') (hroot : row.parentSessionKey = none) : s'.Forest := by
  rw [Forest, parentOf_insert hinsert, hroot]
  exact Acyclic.update_none h

theorem Forest.patch (h : s.Forest) {key : String} {patch : SessionPatch}
    (hpatch : s.patchSession readBinding key patch = .ok s') : s'.Forest := by
  obtain ⟨current, hcurrent, ⟨-, rfl⟩ | ⟨hvalid, rfl⟩⟩ := patchSession_eq_ok hpatch
  · exact h
  · cases hparent : patch.parentSessionKey with
    | none =>
      rw [Forest, parentOf_update_of_kept fun row => by rw [SessionPatch.change, hparent]; rfl]
      exact h
    | some parent =>
      have hchange : (patch.change current).parentSessionKey = parent := by
        rw [SessionPatch.change, hparent]
        rfl
      rw [Forest, parentOf_update hcurrent, hchange]
      cases parent with
      | none => exact Acyclic.update_none h
      | some parent =>
        exact ((validateParentPatch_some_ok_iff h).mp (hvalid (some parent) hparent)).2.2

theorem forest_apply (h : s.Forest) (op : SessionOp) (hleaf : s.ForLeaf op) :
    (s.apply readBinding op).Forest := by
  cases op with
  | createSession key label modelReasoning agentId =>
    simp only [apply, createSession]
    cases hinsert : s.insert _ with
    | none => exact h
    | some s' => exact h.insert_root hinsert rfl
  | ensureSession key label modelReasoning agentId =>
    simp only [apply, ensureSession]
    cases hinsert : s.insert _ with
    | none => cases s.fetchEntry key <;> exact h
    | some s' => exact h.insert_root hinsert rfl
  | createSubagentSession key label parentSessionKey sandboxOwnerKey agentId modelReasoning =>
    simp only [apply, createSubagentSession]
    cases hinsert : s.insert _ with
    | none => exact h
    | some s' =>
      show s'.Forest
      rw [Forest, parentOf_insert hinsert]
      refine Acyclic.update_of_leaf h (parentOf_ne_of_rows hleaf.1) fun heq => ?_
      exact hleaf.2 (Option.some.inj heq)
  | createOrAssignAgent key agentId modelReasoning =>
    simp only [apply, createOrAssignAgent]
    cases hinsert : s.insert _ with
    | none =>
      have hkept : (s.update key fun row => { row with
          agentId := some agentId, modelReasoning, version := row.version + 1 }).parentOf =
          s.parentOf := parentOf_update_of_kept fun _ => rfl
      show (s.update key _).Forest
      rw [Forest, hkept]
      exact h
    | some s' => exact h.insert_root hinsert rfl
  | patchSession key patch =>
    simp only [apply]
    cases hpatch : s.patchSession readBinding key patch with
    | error e => exact h
    | ok s' => exact h.patch hpatch
  | setParent key parentSessionKey forkPoint =>
    simp only [apply, setParent]
    cases hentry : s.fetchEntry key with
    | none => exact h
    | some entry =>
      have hparent : (s.update key fun row => { row with
          parentSessionKey, forkPoint, version := row.version + 1 }).parentOf =
          Function.update s.parentOf key parentSessionKey := parentOf_update hentry
      show (s.update key _).Forest
      rw [Forest, hparent]
      exact Acyclic.update_of_leaf h (parentOf_ne_of_rows hleaf.1) hleaf.2
  | remove key =>
    simp only [apply, remove]
    cases s.fetchEntry key with
    | none => exact h
    | some entry => exact Forest.delete h (·.key = key)
  | deleteByAgentId agentId => exact h.delete _

end Operations

end SessionStore

open SessionStore

variable {readBinding : String → Option ChannelBinding}

/-- **The session tree stays a forest**, over every sequence of operations that starts from a
forest, such as the empty store.  The snapshot of the tree below a root is finite and lists what
lies below the root once each, no session before one below it.  A patch with a new parent is
accepted exactly when the session is no sub-agent, the parent exists, the result has no cycle, and
the other columns of the patch are accepted; a patch that is refused changes nothing. -/
theorem session_tree_stays_forest {start s : SessionStore} {ops : List SessionOp}
    (hstart : start.Forest)
    (hrun : Run (fun s op t => s.ForLeaf op ∧ t = s.apply readBinding op) start ops s) :
    s.Forest ∧
    (∀ rootKey, ∃ keys, s.snapshotTreeLeafToRoot rootKey = some keys ∧ keys.Nodup ∧
      (∀ key, key ∈ keys ↔ s.fetchEntry rootKey ≠ none ∧
        ReflTransGen (Up s.parentOf) key rootKey) ∧
      keys.Pairwise fun key later => s.parentOf later ≠ some key) ∧
    (∀ key current patch parent, s.fetchEntry key = some current →
      patch.parentSessionKey = some (some parent) →
      ((∃ s', s.patchSession readBinding key patch = .ok s') ↔
        (current.promptProfile ≠ .subagent ∧ s.fetchEntry parent ≠ none ∧
          (s.update key patch.change).Forest) ∧
        (patch.archived = some true → s.validateArchivePatch readBinding current = .ok ()) ∧
        s.projectExists patch = true)) ∧
    ∀ key patch e, s.patchSession readBinding key patch = .error e →
      s.apply readBinding (.patchSession key patch) = s := by
  have h : s.Forest := by
    refine hrun.invariant (P := Forest) (fun s op t hs hstep => ?_) hstart
    obtain ⟨hleaf, rfl⟩ := hstep
    exact forest_apply hs op hleaf
  refine ⟨h, fun rootKey => ?_, fun key current patch parent hcurrent hparent =>
    patchSession_ok_iff h hparent hcurrent, fun key patch e herror => ?_⟩
  · obtain ⟨keys, hkeys, hnodup, hmem, hsorted⟩ :=
      exists_leafToRoot h s.keys (fun a b => mem_of_parentOf) rootKey
    rw [List.length_map] at hkeys
    refine ⟨keys, hkeys, hnodup, fun key => ?_, hsorted⟩
    rw [hmem key, ne_eq, fetchEntry_eq_none_iff, not_not]
  · rw [apply, herror]
    rfl

/-! ## Runs -/

def noSessions : SessionStore := ⟨[], List.nodup_nil, [], []⟩

/-- The model of every session below. -/
def someModel : ModelReasoning := ⟨"m", "none"⟩

/-- Sessions `b` and `c` below `a`, and a removal that leaves `c` below a missing session. -/
def growTree : List SessionOp :=
  [.createSession "a" none someModel none, .ensureSession "b" none someModel none,
    .patchSession "b" { parentSessionKey := some (some "a") },
    .createSubagentSession "c" "task" "b" "a" "agent" someModel,
    .patchSession "a" { parentSessionKey := some (some "c") }, .remove "b"]

theorem session_tree_stays_forest_growTree : ∃ s : SessionStore,
    Run (fun s op t => s.ForLeaf op ∧ t = s.apply (fun _ => none) op) noSessions growTree s ∧
    s.rows.map (·.key) = ["a", "c"] ∧ s.Forest := by
  have hstart : noSessions.Forest := acyclic_of_forall_eq_none fun _ => rfl
  have hrun : ∃ s : SessionStore,
      Run (fun s op t => s.ForLeaf op ∧ t = s.apply (fun _ => none) op) noSessions growTree s ∧
      s.rows.map (·.key) = ["a", "c"] := by
    refine ⟨_, .cons ⟨trivial, rfl⟩ <| .cons ⟨trivial, rfl⟩ <| .cons ⟨trivial, rfl⟩ <|
      .cons ⟨⟨by decide, by decide⟩, rfl⟩ <| .cons ⟨trivial, rfl⟩ <|
      .cons ⟨trivial, rfl⟩ <| .nil _, by decide⟩
  obtain ⟨s, hrun, hkeys⟩ := hrun
  exact ⟨s, hrun, hkeys, (session_tree_stays_forest hstart hrun).1⟩

/-- Session `b` answers in its chat, and `a` is another session. -/
def boundSession : SessionStore where
  rows := [{ key := "a", modelReasoning := someModel },
    { key := "b", modelReasoning := someModel, channelBinding := some "binding" }]
  keys := by decide
  channels := [⟨"telegram", "bot", "1", "", "b"⟩]
  projects := []

/-- A patch that gives `b` the parent `a` and archives it is refused, although the parent exists,
`b` is no sub-agent and the result has no cycle. -/
theorem parent_refused_with_archive :
    let patch : SessionPatch := { archived := some true, parentSessionKey := some (some "a") }
    (∃ e, boundSession.patchSession (fun _ => some ⟨"telegram", "bot", "1", none⟩) "b" patch =
      .error e) ∧
    (boundSession.fetchEntry "b").map (·.promptProfile) = some .chat ∧
    boundSession.fetchEntry "a" ≠ none ∧ (boundSession.update "b" patch.change).Forest := by
  have hforest : boundSession.Forest := by
    refine acyclic_of_forall_eq_none fun key => ?_
    by_contra hparent
    obtain ⟨parent, hparent⟩ := Option.ne_none_iff_exists'.mp hparent
    obtain ⟨row, hmem, -, hrow⟩ := parentOf_eq_some_iff.mp hparent
    have hnone : ∀ row ∈ boundSession.rows, row.parentSessionKey = none := by decide
    rw [hnone row hmem] at hrow
    cases hrow
  have hvalid : boundSession.validateParentPatch "b" { key := "b", modelReasoning := someModel }
      (some "a") = .ok () := by decide
  refine ⟨⟨_, rfl⟩, by decide, by decide, ?_⟩
  rw [Forest, parentOf_update rfl]
  exact ((validateParentPatch_some_ok_iff hforest).mp hvalid).2.2

end Chelix.Sessions
