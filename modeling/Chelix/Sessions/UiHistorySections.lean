import Chelix.Sessions.UiHistoryEngine

/-!
# What the sections of a session do

One lemma for each critical section, which says exactly when it succeeds and which state it then
leaves.
-/

namespace Chelix.Sessions

open Chelix.Library Chelix.Common CriticalSection OrderedMap

theorem checkedAdd_ok_iff {bits value n : ℕ} {overflow : String} :
    checkedAdd bits value overflow = .ok n ↔ value + 1 < 2 ^ bits ∧ n = value + 1 := by
  unfold checkedAdd
  split <;> simp_all [eq_comm]

variable {u : Unit}

theorem integer_ok_iff {value : ℕ} : integer value = .ok u ↔ value < 2 ^ 63 := by
  unfold integer
  split <;> simp_all

namespace UiState

variable {s s' : UiState}

theorem check_ok_iff : check s = .ok u s' ↔ s.failure = none ∧ s = s' := by
  unfold check
  rw [bind_ok_iff]
  constructor
  · rintro ⟨a, s₁, hget, h⟩
    cases hget
    cases hfailure : s.failure with
    | none =>
      rw [hfailure] at h
      cases h
      exact ⟨rfl, rfl⟩
    | some failure =>
      rw [hfailure] at h
      cases h
  · rintro ⟨hfailure, rfl⟩
    refine ⟨_, _, rfl, ?_⟩
    rw [hfailure]
    rfl

theorem advance_ok_iff {r : ℕ} : advance s = .ok r s' ↔
    s.revision + 1 < 2 ^ 63 ∧ r = s.revision + 1 ∧
      s' = { s with revision := s.revision + 1 } := by
  unfold advance
  simp only [bind_ok_iff, get_ok_iff, modify_ok_iff, pure_ok_iff, lift_ok_iff,
    checkedAdd_ok_iff, integer_ok_iff]
  constructor
  · rintro ⟨_, _, ⟨rfl, rfl⟩, _, _, ⟨⟨_, rfl⟩, rfl⟩, _, _, rfl, _, _, ⟨hlt, rfl⟩, rfl, rfl⟩
    exact ⟨hlt, rfl, rfl⟩
  · rintro ⟨hlt, rfl, rfl⟩
    exact ⟨_, _, ⟨rfl, rfl⟩, _, _, ⟨⟨by omega, rfl⟩, rfl⟩, (), _, rfl, (), _, ⟨hlt, rfl⟩, rfl, rfl⟩

theorem allocate_ok_iff {position : ℕ} : allocate s = .ok position s' ↔
    s.nextPosition + 1 < 2 ^ 63 ∧ s.totalMessages + 1 < 2 ^ 32 ∧ position = s.nextPosition ∧
      s' = { s with
        nextPosition := s.nextPosition + 1
        totalMessages := s.totalMessages + 1 } := by
  unfold allocate
  simp only [bind_ok_iff, get_ok_iff, modify_ok_iff, pure_ok_iff, lift_ok_iff,
    checkedAdd_ok_iff, integer_ok_iff]
  constructor
  · rintro ⟨_, _, ⟨rfl, rfl⟩, _, _, ⟨⟨_, rfl⟩, rfl⟩, _, _, rfl, _, _, ⟨hlt, rfl⟩, _, _, ⟨rfl, rfl⟩,
      _, _, ⟨⟨htotal, rfl⟩, rfl⟩, _, _, rfl, rfl, rfl⟩
    exact ⟨hlt, htotal, rfl, rfl⟩
  · rintro ⟨hlt, htotal, rfl, rfl⟩
    exact ⟨_, _, ⟨rfl, rfl⟩, _, _, ⟨⟨by omega, rfl⟩, rfl⟩, (), _, rfl, (), _, ⟨hlt, rfl⟩, _, _,
      ⟨rfl, rfl⟩, _, _, ⟨⟨htotal, rfl⟩, rfl⟩, (), _, rfl, rfl, rfl⟩

/-! ## Failures -/

variable {e : Error}

theorem check_error (h : check s = .error e s') : s' = s := by
  unfold check at h
  rcases bind_error_iff.mp h with h | ⟨a, s₁, hget, h⟩
  · cases h
  · cases hget
    cases hfailure : s.failure with
    | none =>
      rw [hfailure] at h
      cases h
    | some failure =>
      rw [hfailure] at h
      cases h
      rfl

theorem advance_error (h : advance s = .error e s') :
    s' = s ∨ s' = { s with revision := s.revision + 1 } := by
  unfold advance at h
  simp only [bind_error_iff, get_ok_iff, modify_ok_iff, lift_ok_iff, lift_error_iff,
    checkedAdd_ok_iff] at h
  rcases h with h | ⟨_, _, ⟨rfl, rfl⟩, ⟨-, rfl⟩ | ⟨_, _, ⟨⟨-, rfl⟩, rfl⟩, h | ⟨_, _, rfl,
    ⟨-, rfl⟩ | ⟨_, _, ⟨-, rfl⟩, h⟩⟩⟩⟩
  · cases h
  · exact .inl rfl
  · cases h
  · exact .inr rfl
  · cases h

/-! ## Projecting -/

/-- The metadata of the run of a record. -/
def runOf (s : UiState) (record : UiRecord) : Option UiRunMetadata :=
  (record.message.runId.bind fun runId => s.runs[runId]?).map UiRegisteredRun.metadata

/-- The entry that a record is projected onto. -/
def entryFor (s : UiState) (id : UiMessageId) (record : UiRecord) : UiEntry :=
  s.entries[id]?.getD (initialEntry id s.nextPosition record)

/-- The counters have room for one more change of a message. -/
structure Room (s : UiState) (id : UiMessageId) (entry : UiEntry) : Prop where
  revision : s.revision + 1 < 2 ^ 63
  contentVersion : entry.contentVersion + 1 < 2 ^ 64
  position : s.entries.contains id = false →
    s.nextPosition + 1 < 2 ^ 63 ∧ s.totalMessages + 1 < 2 ^ 32

/-- A projected entry as it is stored, but for its revision. -/
def stamp (s : UiState) (id : UiMessageId) (entry : UiEntry) : UiEntry :=
  { entry with
    contentVersion := entry.contentVersion + 1
    snapshot :=
      { entry.snapshot with
        position := if s.entries.contains id then entry.snapshot.position else s.nextPosition
        canonicalCommitted := false
        assistantId := s.toolOwners[id]?.or entry.snapshot.assistantId } }

/-- The state after an entry was projected. -/
def projected (s : UiState) (id : UiMessageId) (entry : UiEntry) (ingress : UiIngress) :
    UiState :=
  { s with
    revision := s.revision + 1
    nextPosition := if s.entries.contains id then s.nextPosition else s.nextPosition + 1
    totalMessages := if s.entries.contains id then s.totalMessages else s.totalMessages + 1
    toolOwners := (ownedTools (s.stamp id entry)).foldl (fun owners tool => owners.insert tool id)
      s.toolOwners
    runs := followSegment s.runs (s.stamp id entry) ingress
    entries := s.entries.insert id
      { s.stamp id entry with
        snapshot := { (s.stamp id entry).snapshot with revision := s.revision + 1 } } }

variable {id : UiMessageId} {entry : UiEntry}

theorem positionFor_ok_iff {position : ℕ} :
    positionFor id entry s = .ok position s' ↔
      (s.entries.contains id = false →
        s.nextPosition + 1 < 2 ^ 63 ∧ s.totalMessages + 1 < 2 ^ 32) ∧
      position = (if s.entries.contains id then entry.snapshot.position else s.nextPosition) ∧
      s' = { s with
        nextPosition := if s.entries.contains id then s.nextPosition else s.nextPosition + 1
        totalMessages :=
          if s.entries.contains id then s.totalMessages else s.totalMessages + 1 } := by
  unfold positionFor
  simp only [bind_ok_iff, get_ok_iff]
  cases hcontains : s.entries.contains id with
  | true =>
    constructor
    · rintro ⟨_, _, ⟨rfl, rfl⟩, h⟩
      rw [hcontains] at h
      obtain ⟨rfl, rfl⟩ := pure_ok_iff.mp h
      exact ⟨fun h => (Bool.noConfusion h), rfl, rfl⟩
    · rintro ⟨-, rfl, rfl⟩
      refine ⟨_, _, ⟨rfl, rfl⟩, ?_⟩
      rw [hcontains]
      rfl
  | false =>
    constructor
    · rintro ⟨_, _, ⟨rfl, rfl⟩, h⟩
      rw [hcontains] at h
      obtain ⟨hposition, htotal, rfl, rfl⟩ := allocate_ok_iff.mp h
      exact ⟨fun _ => ⟨hposition, htotal⟩, rfl, rfl⟩
    · rintro ⟨hroom, rfl, rfl⟩
      refine ⟨_, _, ⟨rfl, rfl⟩, ?_⟩
      rw [hcontains]
      exact allocate_ok_iff.mpr ⟨(hroom rfl).1, (hroom rfl).2, rfl, rfl⟩

variable {ingress : UiIngress}

theorem store_ok_iff :
    store id ingress entry s = .ok u s' ↔
      s.Room id entry ∧ s' = s.projected id entry ingress := by
  unfold store
  simp only [bind_ok_iff, get_ok_iff, modify_ok_iff, lift_ok_iff, checkedAdd_ok_iff,
    positionFor_ok_iff, advance_ok_iff]
  constructor
  · rintro ⟨_, _, ⟨rfl, rfl⟩, _, _, ⟨hposition, rfl, rfl⟩, _, _, ⟨⟨hversion, rfl⟩, rfl⟩, _, _,
      rfl, _, _, ⟨hrevision, rfl, rfl⟩, rfl⟩
    exact ⟨⟨hrevision, hversion, hposition⟩, rfl⟩
  · rintro ⟨⟨hrevision, hversion, hposition⟩, rfl⟩
    exact ⟨_, _, ⟨rfl, rfl⟩, _, _, ⟨hposition, rfl, rfl⟩, _, _, ⟨⟨hversion, rfl⟩, rfl⟩, (), _, rfl,
      _, _, ⟨hrevision, rfl, rfl⟩, rfl⟩

variable {record : UiRecord}

theorem project_ok_iff :
    project id record ingress s = .ok u s' ↔
      (Sessions.project (s.entryFor id record) record ingress (s.runOf record) = .ok none ∧
        s = s') ∨
      ∃ entry, Sessions.project (s.entryFor id record) record ingress (s.runOf record) =
          .ok (some entry) ∧ s.Room id entry ∧ s' = s.projected id entry ingress := by
  unfold project
  simp only [bind_ok_iff, get_ok_iff, lift_ok_iff]
  constructor
  · rintro ⟨_, _, ⟨rfl, rfl⟩, result, _, ⟨hproject, rfl⟩, h⟩
    cases result with
    | none =>
      obtain ⟨-, rfl⟩ := pure_ok_iff.mp h
      exact .inl ⟨hproject, rfl⟩
    | some entry => exact .inr ⟨entry, hproject, store_ok_iff.mp h⟩
  · rintro (⟨hproject, rfl⟩ | ⟨entry, hproject, h⟩)
    · exact ⟨_, _, ⟨rfl, rfl⟩, none, _, ⟨hproject, rfl⟩, rfl⟩
    · exact ⟨_, _, ⟨rfl, rfl⟩, some entry, _, ⟨hproject, rfl⟩, store_ok_iff.mpr h⟩

theorem onCopy_ok_iff {α : Type} {copy prepared : UiState} {x : Section α} {a : α} :
    onCopy copy x s = .ok (a, prepared) s' ↔ x copy = .ok a prepared ∧ s = s' := by
  unfold onCopy
  cases hx : x copy with
  | ok b t =>
    rw [pure_ok_iff]
    constructor
    · rintro ⟨heq, rfl⟩
      cases heq
      exact ⟨rfl, rfl⟩
    · rintro ⟨heq, rfl⟩
      cases heq
      exact ⟨rfl, rfl⟩
  | error e t =>
    rw [throw_ok_iff]
    constructor
    · exact False.elim
    · rintro ⟨h, -⟩
      cases h

theorem onCopy_error {α : Type} {copy : UiState} {x : Section α} {e : Error}
    (h : onCopy copy x s = .error e s') : s' = s := by
  unfold onCopy at h
  cases hx : x copy with
  | ok b t =>
    rw [hx] at h
    cases h
  | error e' t =>
    rw [hx] at h
    cases h
    rfl

/-! ## Taking over a copy -/

theorem get_commit (s prepared : UiState) (id : UiMessageId) :
    (s.commit prepared).entries[id]? =
      (prepared.entries[id]?.or s.entries[id]?).map
        (adopt prepared.toolOwners prepared.revision id) := by
  unfold commit
  rw [Std.ExtTreeMap.getElem?_map, Std.ExtTreeMap.getElem?_union]

variable {owners : OrderedMap UiMessageId UiMessageId} {revision : ℕ}

theorem adopt_eq_self
    (h : ∀ owner, owners[id]? = some owner → entry.snapshot.assistantId = some owner) :
    adopt owners revision id entry = entry := by
  unfold adopt
  cases howner : owners[id]? with
  | none => rfl
  | some owner =>
    simp only
    rw [if_pos (h owner howner)]

theorem adopt_of_owner {owner : UiMessageId} (howner : owners[id]? = some owner)
    (h : entry.snapshot.assistantId ≠ some owner) :
    adopt owners revision id entry =
      { entry with
        snapshot := { entry.snapshot with assistantId := some owner, revision } } := by
  unfold adopt
  rw [howner]
  simp only
  rw [if_neg h]

theorem adopt_content (owners : OrderedMap UiMessageId UiMessageId) (revision : ℕ)
    (id : UiMessageId) (entry : UiEntry) :
    (adopt owners revision id entry).materializer = entry.materializer ∧
      (adopt owners revision id entry).snapshot.content = entry.snapshot.content ∧
      (0 < revision → 0 < entry.snapshot.revision →
        0 < (adopt owners revision id entry).snapshot.revision) := by
  by_cases h : ∀ owner, owners[id]? = some owner → entry.snapshot.assistantId = some owner
  · rw [adopt_eq_self h]
    exact ⟨rfl, rfl, fun _ h => h⟩
  · push Not at h
    obtain ⟨owner, howner, hne⟩ := h
    rw [adopt_of_owner howner hne]
    exact ⟨rfl, rfl, fun h _ => h⟩

theorem adopt_owner {owner : UiMessageId} (howner : owners[id]? = some owner) (entry : UiEntry) :
    (adopt owners revision id entry).snapshot.assistantId = some owner := by
  by_cases h : entry.snapshot.assistantId = some owner
  · rw [adopt_eq_self]
    · exact h
    · intro owner' howner'
      rw [howner] at howner'
      cases howner'
      exact h
  · rw [adopt_of_owner howner h]

theorem get_held (s : UiState) (id k : UiMessageId) :
    (s.held id)[k]? = if k = id then s.entries[k]? else none := by
  unfold held
  by_cases hk : k = id
  · subst hk
    rw [if_pos rfl]
    cases hget : s.entries[k]? with
    | none => rfl
    | some entry => exact get_insert_self _ _ _
  · rw [if_neg hk]
    cases s.entries[id]? with
    | none => rfl
    | some entry =>
      rw [get_insert_of_ne _ (fun h => hk h.symm)]
      rfl

/-! ## Live copies -/

/-- A run may copy into a session of its generation, while it is registered. -/
def Admits (s : UiState) (expected : Option UiGeneration) (record : UiRecord) : Prop :=
  s.failure = none ∧ (∀ generation ∈ expected, generation = s.generation) ∧
    ∃ runId ∈ record.message.runId, s.runs.contains runId = true

variable {parseUuid : String → Except String String}

theorem ingest_ok_iff {expected : Option UiGeneration} {uuid : String} :
    ingest parseUuid record ingress expected uuid s = .ok id s' ↔
      s.Admits expected record ∧ ∃ own prepared, identity parseUuid record = .ok own ∧
        id = own.getD uuid ∧
        project id record ingress (s.prepare (s.held id)) = .ok () prepared ∧
        s' = s.commit prepared := by
  unfold ingest Admits
  simp only [bind_ok_iff, get_ok_iff, modify_ok_iff, lift_ok_iff, check_ok_iff, guard_ok_iff,
    pure_ok_iff]
  have hguard : ¬((expected.any fun expected => decide (expected ≠ s.generation)) = true ∨
      ¬(record.message.runId.any fun runId => s.runs.contains runId) = true) ↔
      (∀ generation ∈ expected, generation = s.generation) ∧
        ∃ runId ∈ record.message.runId, s.runs.contains runId = true := by
    cases expected <;> cases record.message.runId <;> simp
  constructor
  · rintro ⟨_, _, ⟨hfailure, rfl⟩, _, _, ⟨rfl, rfl⟩, hadmits, own, _, ⟨hown, rfl⟩, ⟨_, prepared⟩, _,
      hcopy, _, _, rfl, rfl, rfl⟩
    obtain ⟨hproject, rfl⟩ := onCopy_ok_iff.mp hcopy
    exact ⟨⟨hfailure, hguard.mp hadmits⟩, own, prepared, hown, rfl, hproject, rfl⟩
  · rintro ⟨⟨hfailure, hadmits⟩, own, prepared, hown, rfl, hproject, rfl⟩
    exact ⟨(), _, ⟨hfailure, rfl⟩, _, _, ⟨rfl, rfl⟩, hguard.mpr hadmits, own, _, ⟨hown, rfl⟩,
      ((), prepared), _, onCopy_ok_iff.mpr ⟨hproject, rfl⟩, (), _, rfl, rfl, rfl⟩

/-- The tools in memory whose owner is known name it. -/
def adoptAll (s : UiState) : UiState :=
  { s with entries := s.entries.map (adopt s.toolOwners s.revision) }

theorem get_projected (s : UiState) (id k : UiMessageId) (entry : UiEntry) (ingress : UiIngress) :
    (s.projected id entry ingress).adoptAll.entries[k]? =
      (if id = k then some { s.stamp id entry with
          snapshot := { (s.stamp id entry).snapshot with revision := s.revision + 1 } }
        else s.entries[k]?).map
        (adopt (s.projected id entry ingress).toolOwners (s.revision + 1) k) := by
  unfold adoptAll
  rw [Std.ExtTreeMap.getElem?_map]
  unfold UiState.projected
  simp only
  rw [get_insert]

/-- A projection on a copy that holds only the message in question, once it is taken over. -/
theorem commit_projected (s : UiState) (id : UiMessageId) (entry : UiEntry)
    (ingress : UiIngress) :
    s.commit ((s.prepare (s.held id)).projected id entry ingress) =
      (s.projected id entry ingress).adoptAll := by
  have hcontains : (s.prepare (s.held id)).entries.contains id = s.entries.contains id := by
    change (s.held id).contains id = _
    rw [contains_eq_isSome, contains_eq_isSome, get_held, if_pos rfl]
  have hstamp : (s.prepare (s.held id)).stamp id entry = s.stamp id entry := by
    unfold stamp
    rw [hcontains]
    rfl
  have hentries : s.entries ∪ ((s.prepare (s.held id)).projected id entry ingress).entries =
      (s.projected id entry ingress).entries := by
    refine ext fun k => ?_
    unfold projected
    rw [hstamp, Std.ExtTreeMap.getElem?_union, get_insert, get_insert]
    by_cases hk : id = k
    · subst hk
      rw [if_pos rfl, if_pos rfl, Option.some_or]
      rfl
    · rw [if_neg hk, if_neg hk]
      change ((s.held id)[k]?).or _ = _
      rw [get_held, if_neg fun h => hk h.symm, Option.none_or]
  unfold commit adoptAll
  rw [hentries]
  unfold projected
  rw [hcontains, hstamp]
  rfl

theorem entryFor_held (s : UiState) (id : UiMessageId) (record : UiRecord) :
    (s.prepare (s.held id)).entryFor id record = s.entryFor id record := by
  unfold entryFor
  change ((s.held id)[id]?).getD _ = _
  rw [get_held, if_pos rfl]
  rfl

theorem room_held_iff (s : UiState) (id : UiMessageId) (entry : UiEntry) :
    (s.prepare (s.held id)).Room id entry ↔ s.Room id entry := by
  have hcontains : (s.prepare (s.held id)).entries.contains id = s.entries.contains id := by
    change (s.held id).contains id = _
    rw [contains_eq_isSome, contains_eq_isSome, get_held, if_pos rfl]
  constructor
  · rintro ⟨hrevision, hversion, hposition⟩
    rw [hcontains] at hposition
    exact ⟨hrevision, hversion, hposition⟩
  · rintro ⟨hrevision, hversion, hposition⟩
    rw [← hcontains] at hposition
    exact ⟨hrevision, hversion, hposition⟩

theorem project_live_ne_none (entry : UiEntry) (record : UiRecord) (run : Option UiRunMetadata) :
    Sessions.project entry record .live run ≠ .ok none := by
  intro h
  unfold Sessions.project at h
  simp only at h
  split at h
  · unfold projectUpdate at h
    simp only [reduceCtorEq, false_and, if_false] at h
    split at h <;> cases h
  · unfold projectClose at h
    simp only [reduceCtorEq, false_and, if_false] at h
    split at h <;> cases h
  · unfold projectLifecycle at h
    split at h <;> cases h
  · unfold projectAssistant at h
    split at h <;> cases h
  all_goals cases h

theorem ingest_live_ok_iff {expected : Option UiGeneration} {uuid : String} :
    ingest parseUuid record .live expected uuid s = .ok id s' ↔
      s.Admits expected record ∧ ∃ own entry, identity parseUuid record = .ok own ∧
        id = own.getD uuid ∧
        Sessions.project (s.entryFor id record) record .live (s.runOf record) =
          .ok (some entry) ∧ s.Room id entry ∧ s' = (s.projected id entry .live).adoptAll := by
  rw [ingest_ok_iff]
  constructor
  · rintro ⟨hadmits, own, prepared, hown, hid, hproject, rfl⟩
    rcases project_ok_iff.mp hproject with ⟨hnone, -⟩ | ⟨entry, hentry, hroom, rfl⟩
    · exact absurd hnone (project_live_ne_none _ _ _)
    · rw [entryFor_held] at hentry
      exact ⟨hadmits, own, entry, hown, hid, hentry, (room_held_iff s id entry).mp hroom,
        commit_projected s id entry .live⟩
  · rintro ⟨hadmits, own, entry, hown, hid, hentry, hroom, rfl⟩
    refine ⟨hadmits, own, _, hown, hid, project_ok_iff.mpr (.inr ⟨entry, ?_,
      (room_held_iff s id entry).mpr hroom, rfl⟩), (commit_projected s id entry .live).symm⟩
    rw [entryFor_held]
    exact hentry

/-! ## Staging and binding -/

variable {generation : UiGeneration}

theorem stageRecord_ok_iff {receipt : UiAppendReceipt} :
    stageRecord generation id record s = .ok receipt s' ↔
      ¬(record.message.role = .user ∧ s.entries.contains id = true) ∧
        project id record .journal s = .ok () s' ∧ ∃ entry, s'.entries[id]? = some entry ∧
          receipt =
            { id
              commitsSnapshot := commits s.entries id record.message
              semanticRecord := isSemantic record.message
              generation
              contentVersion := entry.contentVersion } := by
  unfold stageRecord
  simp only [bind_ok_iff, get_ok_iff, guard_ok_iff]
  constructor
  · rintro ⟨_, _, ⟨rfl, rfl⟩, hguard, _, s₁, hproject, _, _, ⟨rfl, rfl⟩, h⟩
    refine ⟨hguard, ?_⟩
    cases hentry : s₁.entries[id]? with
    | none =>
      rw [hentry] at h
      cases h
    | some entry =>
      rw [hentry] at h
      obtain ⟨rfl, rfl⟩ := pure_ok_iff.mp h
      exact ⟨hproject, entry, hentry, rfl⟩
  · rintro ⟨hguard, hproject, entry, hentry, rfl⟩
    refine ⟨_, _, ⟨rfl, rfl⟩, hguard, (), s', hproject, _, _, ⟨rfl, rfl⟩, ?_⟩
    rw [hentry]
    rfl

variable {identified : List (UiMessageId × UiRecord)} {receipts : List UiAppendReceipt}

theorem stageRecords_cons_ok_iff :
    stageRecords generation ((id, record) :: identified) s = .ok receipts s' ↔
      ∃ receipt s₁ rest, stageRecord generation id record s = .ok receipt s₁ ∧
        stageRecords generation identified s₁ = .ok rest s' ∧ receipts = receipt :: rest := by
  rw [stageRecords]
  simp only [bind_ok_iff, pure_ok_iff]
  constructor
  · rintro ⟨receipt, s₁, hreceipt, rest, _, hrest, rfl, rfl⟩
    exact ⟨receipt, s₁, rest, hreceipt, hrest, rfl⟩
  · rintro ⟨receipt, s₁, rest, hreceipt, hrest, rfl⟩
    exact ⟨receipt, s₁, hreceipt, rest, s', hrest, rfl, rfl⟩

theorem stageBatch_ok_iff {loaded : OrderedMap UiMessageId UiEntry} :
    stageBatch generation loaded identified s = .ok receipts s' ↔
      s.failure = none ∧ s.generation = generation ∧ ∃ prepared,
        stageRecords generation identified (s.prepare (s.staged loaded identified)) =
          .ok receipts prepared ∧
        s' = { s.commit prepared with
          pendingAppends := receipts.foldl addPending s.pendingAppends } := by
  unfold stageBatch
  simp only [bind_ok_iff, get_ok_iff, modify_ok_iff, check_ok_iff, guard_ok_iff, pure_ok_iff]
  constructor
  · rintro ⟨_, _, ⟨hfailure, rfl⟩, _, _, ⟨rfl, rfl⟩, hgeneration, ⟨receipts, prepared⟩, _, hcopy,
      _, _, rfl, _, _, rfl, rfl, rfl⟩
    obtain ⟨hstage, rfl⟩ := onCopy_ok_iff.mp hcopy
    push Not at hgeneration
    exact ⟨hfailure, hgeneration, prepared, hstage, rfl⟩
  · rintro ⟨hfailure, hgeneration, prepared, hstage, rfl⟩
    exact ⟨(), _, ⟨hfailure, rfl⟩, _, _, ⟨rfl, rfl⟩, not_not_intro hgeneration,
      (receipts, prepared), _, onCopy_ok_iff.mpr ⟨hstage, rfl⟩, (), _, rfl, (), _, rfl, rfl, rfl⟩

theorem stageBatch_error {loaded : OrderedMap UiMessageId UiEntry}
    (h : stageBatch generation loaded identified s = .error e s') : s' = s := by
  unfold stageBatch at h
  rcases bind_error_iff.mp h with h | ⟨_, _, hcheck, h⟩
  · exact check_error h
  obtain ⟨-, rfl⟩ := check_ok_iff.mp hcheck
  rcases bind_error_iff.mp h with h | ⟨_, _, hget, h⟩
  · cases h
  obtain ⟨rfl, rfl⟩ := get_ok_iff.mp hget
  by_cases hgeneration : s.generation = generation
  · rw [if_neg (not_not_intro hgeneration)] at h
    rcases bind_error_iff.mp h with h | ⟨⟨receipts, prepared⟩, _, hcopy, h⟩
    · exact onCopy_error h
    · cases h
  · rw [if_pos hgeneration] at h
    cases h
    rfl

theorem stage_ok_iff {records : List (UiRecord × String)} {read : UiMessageId → Option UiEntry} :
    stage parseUuid records read s = .ok receipts s' ↔
      ∃ identified, identifyAll parseUuid records = .ok identified ∧
        stageBatch s.generation (loadEntries read identified) identified s = .ok receipts s' := by
  unfold stage
  simp only [bind_ok_iff, get_ok_iff, lift_ok_iff]
  constructor
  · rintro ⟨_, _, ⟨rfl, rfl⟩, identified, _, ⟨hidentified, rfl⟩, h⟩
    exact ⟨identified, hidentified, h⟩
  · rintro ⟨identified, hidentified, h⟩
    exact ⟨_, _, ⟨rfl, rfl⟩, identified, _, ⟨hidentified, rfl⟩, h⟩

theorem stage_error {records : List (UiRecord × String)} {read : UiMessageId → Option UiEntry}
    (h : stage parseUuid records read s = .error e s') : s' = s := by
  unfold stage at h
  simp only [bind_error_iff, get_ok_iff, lift_ok_iff, lift_error_iff] at h
  rcases h with h | ⟨_, _, ⟨rfl, rfl⟩, ⟨-, rfl⟩ | ⟨identified, _, ⟨-, rfl⟩, h⟩⟩
  · cases h
  · rfl
  · exact stageBatch_error h

theorem get_loadEntries (read : UiMessageId → Option UiEntry)
    (identified : List (UiMessageId × UiRecord)) (k : UiMessageId) :
    (loadEntries read identified)[k]? = if k ∈ identified.map Prod.fst then read k else none := by
  have hfold : loadEntries read identified =
      (identified.map Prod.fst).foldl (takeOver read) ∅ := by
    rw [List.foldl_map]
    unfold loadEntries
    congr 1
    funext loaded record
    unfold takeOver
    cases read record.1 <;> rfl
  rw [hfold, get_foldl_takeOver,
    show (∅ : OrderedMap UiMessageId UiEntry)[k]? = none from rfl, Option.or_none]

theorem get_staged (s : UiState) (loaded : OrderedMap UiMessageId UiEntry)
    (identified : List (UiMessageId × UiRecord)) (k : UiMessageId) :
    (s.staged loaded identified)[k]? =
      if k ∈ identified.map Prod.fst then (s.entries[k]?).or loaded[k]? else loaded[k]? := by
  have hfold : s.staged loaded identified =
      (identified.map Prod.fst).foldl (takeOver fun k => s.entries[k]?) loaded := by
    rw [List.foldl_map]
    unfold staged
    congr 1
    funext entries record
    unfold takeOver
    simp only
    cases s.entries[record.1]? <;> rfl
  rw [hfold, get_foldl_takeOver]

theorem get_addPending (receipts : List UiAppendReceipt) (pending : OrderedMap UiMessageId ℕ)
    (k : UiMessageId) :
    (receipts.foldl addPending pending)[k]?.getD 0 =
      pending[k]?.getD 0 + receipts.countP fun receipt => receipt.id = k := by
  induction receipts generalizing pending with
  | nil => rfl
  | cons receipt receipts ih =>
    rw [List.foldl_cons, ih, List.countP_cons]
    unfold addPending
    rw [get_insert]
    by_cases hk : receipt.id = k
    · rw [if_pos hk, hk, decide_eq_true rfl]
      simp only [Option.getD_some, if_true]
      omega
    · rw [if_neg hk, decide_eq_false hk]
      simp only [Bool.false_eq_true, if_false, Nat.add_zero]

/-- Taking over a copy that nothing was projected onto changes nothing, if the tools in memory
name their owners. -/
theorem commit_prepare {s : UiState} {entries : OrderedMap UiMessageId UiEntry}
    (hentries : ∀ k : UiMessageId, entries[k]? = none ∨ entries[k]? = s.entries[k]?)
    (howned : ∀ (k : UiMessageId) (entry : UiEntry) (owner : UiMessageId),
      s.entries[k]? = some entry → s.toolOwners[k]? = some owner →
      entry.snapshot.assistantId = some owner) :
    s.commit (s.prepare entries) = s := by
  have hmap : (s.commit (s.prepare entries)).entries = s.entries := by
    refine ext fun k => ?_
    rw [get_commit]
    have hor : (entries[k]?).or s.entries[k]? = s.entries[k]? := by
      rcases hentries k with h | h
      · rw [h, Option.none_or]
      · rw [h, Option.or_self]
    change ((entries[k]?).or s.entries[k]?).map (adopt s.toolOwners s.revision k) = _
    rw [hor]
    cases hk : s.entries[k]? with
    | none => rfl
    | some entry => exact congrArg some (adopt_eq_self fun owner => howned k entry owner hk)
  calc s.commit (s.prepare entries)
      = { s with entries := (s.commit (s.prepare entries)).entries } := rfl
    _ = s := by rw [hmap]

/-- The entry of a message once its record has been bound. -/
def boundEntry (receipt : UiAppendReceipt) (index revision : ℕ) (entry : UiEntry) : UiEntry :=
  { entry with
    canonical := some (bindCanonical entry.canonical receipt.semanticRecord index (index + 1))
    snapshot :=
      { entry.snapshot with
        canonicalCommitted := entry.snapshot.canonicalCommitted ||
          (receipt.commitsSnapshot && entry.contentVersion = receipt.contentVersion)
        revision } }

/-- The receipts that are left once one of a message has been used. -/
def usePending (pending : OrderedMap UiMessageId ℕ) (id : UiMessageId) :
    OrderedMap UiMessageId ℕ :=
  match pending[id]? with
  | some count => if count - 1 = 0 then pending.erase id else pending.insert id (count - 1)
  | none => pending

theorem get_usePending (pending : OrderedMap UiMessageId ℕ) (id k : UiMessageId) :
    (usePending pending id)[k]?.getD 0 = pending[k]?.getD 0 - if id = k then 1 else 0 := by
  unfold usePending
  cases hid : pending[id]? with
  | none =>
    by_cases hk : id = k
    · subst hk
      simp [hid]
    · simp [hk]
  | some count =>
    simp only
    split
    · rename_i hzero
      rw [Std.ExtTreeMap.getElem?_erase]
      by_cases hk : id = k
      · subst hk
        simp [hid, hzero]
      · simp [hk]
    · rw [get_insert]
      by_cases hk : id = k
      · subst hk
        simp [hid]
      · simp [hk]

theorem bindReceipt_ok_iff {receipt : UiAppendReceipt} {index : ℕ} :
    UiState.bind receipt index s = .ok u s' ↔
      s.failure = none ∧ s.generation = receipt.generation ∧
        s.pendingAppends.contains receipt.id = true ∧ index + 1 < 2 ^ 64 ∧
        s.revision + 1 < 2 ^ 63 ∧ ∃ entry, s.entries[receipt.id]? = some entry ∧
        s' = { s with
          revision := s.revision + 1
          entries := s.entries.insert receipt.id
            (boundEntry receipt index (s.revision + 1) entry)
          canonicalTail := max s.canonicalTail (index + 1)
          pendingAppends := usePending s.pendingAppends receipt.id } := by
  unfold UiState.bind
  simp only [bind_ok_iff, get_ok_iff, lift_ok_iff, check_ok_iff, guard_ok_iff,
    checkedAdd_ok_iff, advance_ok_iff]
  constructor
  · rintro ⟨_, _, ⟨hfailure, rfl⟩, _, _, ⟨rfl, rfl⟩, hguard, _, _, ⟨⟨hstop, rfl⟩, rfl⟩, _, _,
      ⟨hrevision, rfl, rfl⟩, _, _, ⟨rfl, rfl⟩, h⟩
    push Not at hguard
    refine ⟨hfailure, hguard.1, hguard.2, hstop, hrevision, ?_⟩
    simp only at h
    cases hentry : s.entries[receipt.id]? with
    | none =>
      rw [hentry] at h
      cases h
    | some entry =>
      rw [hentry] at h
      exact ⟨entry, rfl, modify_ok_iff.mp h⟩
  · rintro ⟨hfailure, hgeneration, hpending, hstop, hrevision, entry, hentry, rfl⟩
    refine ⟨(), _, ⟨hfailure, rfl⟩, _, _, ⟨rfl, rfl⟩, ?_, _, _, ⟨⟨hstop, rfl⟩, rfl⟩, _, _,
      ⟨hrevision, rfl, rfl⟩, _, _, ⟨rfl, rfl⟩, ?_⟩
    · push Not
      exact ⟨hgeneration, hpending⟩
    · simp only
      rw [hentry]
      rfl

/-! ## Presentations, errors and record updates -/

theorem updatePresentation_ok_iff {target : UiHistoryTarget} {presentation : UiPresentation}
    {stored : Option UiEntry} :
    updatePresentation target presentation stored s = .ok u s' ↔
      s.failure = none ∧ s.generation = target.generation ∧ s.revision + 1 < 2 ^ 63 ∧
        ∃ entry, s.entries[target.messageId]?.or stored = some entry ∧
        s' = { s with
          revision := s.revision + 1
          entries := s.entries.insert target.messageId
            { entry with
              snapshot := { entry.snapshot with presentation, revision := s.revision + 1 } } } := by
  unfold updatePresentation
  simp only [bind_ok_iff, get_ok_iff, check_ok_iff, guard_ok_iff]
  constructor
  · rintro ⟨_, _, ⟨hfailure, rfl⟩, _, _, ⟨rfl, rfl⟩, hgeneration, h⟩
    push Not at hgeneration
    cases hentry : s.entries[target.messageId]?.or stored with
    | none =>
      rw [hentry] at h
      cases h
    | some entry =>
      rw [hentry] at h
      simp only [bind_ok_iff, advance_ok_iff, modify_ok_iff] at h
      obtain ⟨_, _, ⟨hrevision, rfl, rfl⟩, rfl⟩ := h
      exact ⟨hfailure, hgeneration, hrevision, entry, rfl, rfl⟩
  · rintro ⟨hfailure, hgeneration, hrevision, entry, hentry, rfl⟩
    refine ⟨(), _, ⟨hfailure, rfl⟩, _, _, ⟨rfl, rfl⟩, not_not_intro hgeneration, ?_⟩
    rw [hentry]
    simp only [bind_ok_iff, advance_ok_iff, modify_ok_iff]
    exact ⟨_, _, ⟨hrevision, rfl, rfl⟩, rfl⟩

theorem mutatePresentation_ok_iff {runId : String} {update : UiPresentation → UiPresentation} :
    mutatePresentation generation runId id update s = .ok u s' ↔
      s.failure = none ∧ s.generation = generation ∧ s.runs.contains runId = true ∧
        s.revision + 1 < 2 ^ 63 ∧ ∃ entry, s.entries[id]? = some entry ∧
        entry.snapshot.content.runId = some runId ∧
        s' = { s with
          revision := s.revision + 1
          entries := s.entries.insert id
            { entry with
              snapshot :=
                { entry.snapshot with
                  presentation := update entry.snapshot.presentation
                  revision := s.revision + 1 } } } := by
  unfold mutatePresentation
  simp only [bind_ok_iff, get_ok_iff, check_ok_iff, guard_ok_iff, advance_ok_iff]
  constructor
  · rintro ⟨_, _, ⟨hfailure, rfl⟩, _, _, ⟨rfl, rfl⟩, hguard, howner, _, _, ⟨hrevision, rfl, rfl⟩, _,
      _, ⟨rfl, rfl⟩, h⟩
    push Not at hguard howner
    simp only at h
    cases hentry : s.entries[id]? with
    | none =>
      rw [hentry] at h
      cases h
    | some entry =>
      rw [hentry] at h howner
      exact ⟨hfailure, hguard.1, hguard.2, hrevision, entry, rfl, howner, modify_ok_iff.mp h⟩
  · rintro ⟨hfailure, hgeneration, hrun, hrevision, entry, hentry, howner, rfl⟩
    refine ⟨(), _, ⟨hfailure, rfl⟩, _, _, ⟨rfl, rfl⟩, ?_, ?_, _, _, ⟨hrevision, rfl, rfl⟩, _, _,
      ⟨rfl, rfl⟩, ?_⟩
    · push Not
      exact ⟨hgeneration, hrun⟩
    · push Not
      rw [hentry]
      exact howner
    · simp only
      rw [hentry]
      rfl

/-- An update finds the entry that it was prepared for. -/
def Unchanged (s : UiState) (expected : UiRecordUpdate) (entry : UiEntry) : Prop :=
  s.generation = expected.generation ∧ entry.snapshot.id = expected.entry.snapshot.id ∧
    entry.canonical = expected.entry.canonical ∧
    entry.contentVersion = expected.entry.contentVersion ∧
    ¬s.pendingAppends.contains entry.snapshot.id = true

theorem updateRecord_ok_iff {expected current : UiRecordUpdate} :
    updateRecord parseUuid expected current record s = .ok u s' ↔
      s.failure = none ∧ s.revision + 1 < 2 ^ 63 ∧
        s.Unchanged expected (s.entries[current.entry.snapshot.id]?.getD current.entry) ∧
        ∃ entry, validateRecordUpdate parseUuid
            (s.entries[current.entry.snapshot.id]?.getD current.entry) record = .ok entry ∧
          s' = { s with
            revision := s.revision + 1
            entries := s.entries.insert entry.snapshot.id
              { entry with snapshot := { entry.snapshot with revision := s.revision + 1 } } } := by
  unfold updateRecord Unchanged
  simp only [bind_ok_iff, get_ok_iff, check_ok_iff, guard_ok_iff, lift_ok_iff, advance_ok_iff,
    modify_ok_iff]
  constructor
  · rintro ⟨_, _, ⟨hfailure, rfl⟩, _, _, ⟨rfl, rfl⟩, hguard, entry, _, ⟨hvalid, rfl⟩, _, _,
      ⟨hrevision, rfl, rfl⟩, rfl⟩
    push Not at hguard
    exact ⟨hfailure, hrevision, hguard, entry, hvalid, rfl⟩
  · rintro ⟨hfailure, hrevision, hunchanged, entry, hvalid, rfl⟩
    refine ⟨(), _, ⟨hfailure, rfl⟩, _, _, ⟨rfl, rfl⟩, ?_, entry, _, ⟨hvalid, rfl⟩, _, _,
      ⟨hrevision, rfl, rfl⟩, rfl⟩
    push Not
    exact hunchanged

end UiState

end Chelix.Sessions
