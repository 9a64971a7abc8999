import Chelix.Library.Numbering
import Chelix.Library.Results
import Chelix.Sessions.StoredSession

/-!
# The positions of entries

Positions number the messages of a history.  No section changes the position of an entry; a
section that adds a message gives it the next one.
-/

namespace Chelix.Sessions

open Chelix.Library Chelix.Common CriticalSection Option OrderedMap UiState

/-! ## Entries in their numbers -/

/-- Each entry is that of its key, and its position is the number of its message. -/
def Placed (n : Numbering UiMessageId) (entries : EntryMap) : Prop :=
  ∀ (id : UiMessageId) (entry : UiEntry), entries[id]? = some entry →
    entry.snapshot.id = id ∧ n.number id = some entry.snapshot.position

variable {entry : UiEntry}

namespace Placed

variable {n m : Numbering UiMessageId} {entries others : EntryMap}

theorem empty (n : Numbering UiMessageId) : Placed n ∅ := by
  intro id entry h
  cases h

theorem mono (h : Placed n entries) (hgrows : n.Extends m) : Placed m entries := by
  intro id entry hentry
  obtain ⟨hid, hnumber⟩ := h id entry hentry
  exact ⟨hid, hgrows id _ hnumber⟩

theorem insert (h : Placed n entries)
    (hnumber : n.number entry.snapshot.id = some entry.snapshot.position) :
    Placed n (entries.insert entry.snapshot.id entry) := by
  intro id entry' hentry
  rw [get_insert] at hentry
  split at hentry
  · rename_i heq
    obtain rfl := Option.some.inj hentry
    rw [← heq]
    exact ⟨rfl, hnumber⟩
  · exact h id entry' hentry

theorem union (h : Placed n entries) (hothers : Placed n others) : Placed n (entries ∪ others) := by
  intro id entry hentry
  rw [Std.ExtTreeMap.getElem?_union, or_eq_some_iff] at hentry
  rcases hentry with hentry | ⟨-, hentry⟩
  · exact hothers id entry hentry
  · exact h id entry hentry

theorem of_subset (h : Placed n entries)
    (hsub : ∀ (id : UiMessageId) (entry : UiEntry), others[id]? = some entry →
      entries[id]? = some entry) : Placed n others :=
  fun id entry hentry => h id entry (hsub id entry hentry)

end Placed

variable {id : UiMessageId} {entries : EntryMap}

theorem held_iff_exists :
    entries.contains id = true ↔ ∃ entry, entries[id]? = some entry := by
  rw [contains_eq_isSome, isSome_iff_exists]

theorem contains_of_get (h : entries[id]? = some entry) : entries.contains id = true :=
  held_iff_exists.mpr ⟨entry, h⟩

/-! ## Projections -/

variable {record : UiRecord} {ingress : UiIngress}

theorem project_place {entry entry' : UiEntry}
    {run : Option UiRunMetadata} (h : project entry record ingress run = .ok (some entry')) :
    entry'.snapshot.id = entry.snapshot.id ∧
      entry'.snapshot.position = entry.snapshot.position := by
  unfold project at h
  simp only at h
  split at h
  · unfold projectUpdate at h
    simp only at h
    split at h
    · cases h
    · split at h
      · cases h
      · cases h
        exact ⟨rfl, rfl⟩
  · unfold projectClose at h
    simp only at h
    split at h
    · cases h
    · split at h
      · cases h
      · cases h
        unfold UiEntry.setOutcome UiEntry.setContent
        split <;> exact ⟨rfl, rfl⟩
  · unfold projectLifecycle at h
    split at h
    · split at h <;> cases h
    · simp only at h
      cases h
      unfold UiEntry.setContent
      split <;> exact ⟨rfl, rfl⟩
  · unfold projectAssistant at h
    split at h
    · cases h
    · cases h
      exact ⟨rfl, rfl⟩
  · cases h
  all_goals
    cases h
    exact ⟨rfl, rfl⟩

theorem adopt_place (owners : OrderedMap UiMessageId UiMessageId) (revision : ℕ)
    (id : UiMessageId) (entry : UiEntry) :
    (adopt owners revision id entry).snapshot.id = entry.snapshot.id ∧
      (adopt owners revision id entry).snapshot.position = entry.snapshot.position := by
  unfold adopt
  split
  · split <;> exact ⟨rfl, rfl⟩
  · exact ⟨rfl, rfl⟩

theorem adopt_revision (owners : OrderedMap UiMessageId UiMessageId) (revision : ℕ)
    (id : UiMessageId) (entry : UiEntry) :
    (adopt owners revision id entry).snapshot.revision = entry.snapshot.revision ∨
      (adopt owners revision id entry).snapshot.revision = revision := by
  unfold adopt
  split
  · split
    · exact .inl rfl
    · exact .inr rfl
  · exact .inl rfl

/-- What projections onto a copy do to its entries, whose history is numbered. -/
structure Projects (n m : Numbering UiMessageId) (p q : UiState) : Prop where
  grows : n.Extends m
  sound : m.Sound
  next : m.next = q.nextPosition
  placed : Placed m q.entries
  kept : ∀ id : UiMessageId, p.entries.contains id = true → q.entries.contains id = true
  added : ∀ id, m.number id ≠ none → n.number id ≠ none ∨ q.entries.contains id = true
  aged : ∀ (id : UiMessageId) (entry : UiEntry), q.entries[id]? = some entry →
    p.entries[id]? = some entry ∨
      (p.revision < entry.snapshot.revision ∧ entry.snapshot.revision ≤ q.revision)
  revision : p.revision ≤ q.revision
  generation : q.generation = p.generation
  committed : q.committedRevision = p.committedRevision
  empty : (p.totalMessages = 0 → n.next = 0) → q.totalMessages = 0 → m.next = 0

theorem Projects.refl {n : Numbering UiMessageId} {p : UiState} (hsound : n.Sound)
    (hnext : n.next = p.nextPosition) (hplaced : Placed n p.entries) : Projects n n p p where
  grows := .refl n
  sound := hsound
  next := hnext
  placed := hplaced
  kept := fun _ h => h
  added := fun _ h => .inl h
  aged := fun _ _ h => .inl h
  revision := le_rfl
  generation := rfl
  committed := rfl
  empty := fun h => h

theorem Projects.trans {n m k : Numbering UiMessageId} {p q r : UiState} (h : Projects n m p q)
    (h' : Projects m k q r) : Projects n k p r where
  __ := h'
  grows := h.grows.trans h'.grows
  kept := fun id hid => h'.kept id (h.kept id hid)
  added := by
    intro id hid
    rcases h'.added id hid with hid | hid
    · exact (h.added id hid).imp_right (h'.kept id)
    · exact .inr hid
  aged := by
    intro id entry hentry
    rcases h'.aged id entry hentry with hentry | ⟨hlt, hle⟩
    · exact (h.aged id entry hentry).imp_right fun ⟨hlt, hle⟩ => ⟨hlt, hle.trans h'.revision⟩
    · exact .inr ⟨h.revision.trans_lt hlt, hle⟩
  revision := h.revision.trans h'.revision
  generation := h'.generation.trans h.generation
  committed := h'.committed.trans h.committed
  empty := fun hempty => h'.empty (h.empty hempty)

theorem Projects.of_insert {n m : Numbering UiMessageId} {p q : UiState}
    (hgrows : n.Extends m) (hsound : m.Sound) (hnext : m.next = q.nextPosition)
    (hplaced : Placed n p.entries) (hentries : q.entries = p.entries.insert id entry)
    (hid : entry.snapshot.id = id) (hnumber : m.number id = some entry.snapshot.position)
    (hadded : ∀ id', m.number id' ≠ none → n.number id' ≠ none ∨ id' = id)
    (hrevision : entry.snapshot.revision = p.revision + 1) (hq : q.revision = p.revision + 1)
    (hgeneration : q.generation = p.generation)
    (hcommitted : q.committedRevision = p.committedRevision)
    (hempty : (p.totalMessages = 0 → n.next = 0) → q.totalMessages = 0 → m.next = 0) :
    Projects n m p q where
  grows := hgrows
  sound := hsound
  next := hnext
  placed := by
    subst hid
    rw [hentries]
    exact (hplaced.mono hgrows).insert hnumber
  kept := by
    intro id' hid'
    rw [hentries, Std.ExtTreeMap.contains_insert, hid', Bool.or_true]
  added := by
    intro id' hid'
    refine (hadded id' hid').imp_right fun heq => ?_
    rw [hentries, heq, Std.ExtTreeMap.contains_insert_self]
  aged := by
    intro id' entry' hentry'
    rw [hentries, get_insert] at hentry'
    split at hentry'
    · obtain rfl := Option.some.inj hentry'
      exact .inr ⟨by omega, by omega⟩
    · exact .inl hentry'
  revision := by omega
  generation := hgeneration
  committed := hcommitted
  empty := hempty

/-- **One record**: its message is found, or it is a new one and gets the next position. -/
theorem projects_project {n : Numbering UiMessageId} {p q : UiState} {u : Unit} (hsound : n.Sound)
    (hnext : n.next = p.nextPosition) (hplaced : Placed n p.entries)
    (hfinds : n.number id ≠ none → p.entries.contains id = true)
    (h : UiState.project id record ingress p = .ok u q) : ∃ m, Projects n m p q := by
  rcases UiState.project_ok_iff.mp h with ⟨-, rfl⟩ | ⟨entry, hproject, -, rfl⟩
  · exact ⟨n, .refl hsound hnext hplaced⟩
  obtain ⟨hid, hposition⟩ := project_place hproject
  cases hcontains : p.entries.contains id with
  | true =>
    obtain ⟨old, hold⟩ := held_iff_exists.mp hcontains
    obtain ⟨holdid, hnumber⟩ := hplaced id old hold
    have hfor : p.entryFor id record = old := by
      unfold UiState.entryFor
      rw [hold]
      rfl
    rw [hfor] at hid hposition
    have hplace : (p.stamp id entry).snapshot.position = entry.snapshot.position := if_pos hcontains
    refine ⟨n, .of_insert (.refl n) hsound ?_ hplaced rfl (hid.trans holdid) ?_
      (fun _ h => .inl h) rfl rfl rfl rfl ?_⟩
    · exact hnext.trans (if_pos hcontains).symm
    · rw [hnumber, ← hposition, ← hplace]
    · intro hempty htotal
      exact hempty ((if_pos hcontains).symm.trans htotal)
  | false =>
    have hfalse : ¬p.entries.contains id = true := by
      rw [hcontains]
      exact Bool.false_ne_true
    have hnone : n.number id = none := by
      by_contra hsome
      exact hfalse (hfinds hsome)
    have hfor : p.entryFor id record = initialEntry id p.nextPosition record := by
      have hget : p.entries[id]? = none := by
        rw [OrderedMap.contains_eq_isSome] at hfalse
        exact not_isSome_iff_eq_none.mp hfalse
      unfold UiState.entryFor
      rw [hget]
      rfl
    rw [hfor] at hid
    have hplace : (p.stamp id entry).snapshot.position = p.nextPosition := if_neg hfalse
    refine ⟨n.add id, .of_insert (Numbering.extends_add hnone) (hsound.add id) ?_ hplaced rfl hid
      ?_ ?_ rfl rfl rfl rfl ?_⟩
    · exact (congrArg (· + 1) hnext).trans (if_neg hfalse).symm
    · rw [Numbering.number_add_self, hnext]
      exact congrArg some hplace.symm
    · intro id' hid'
      by_cases heq : id' = id
      · exact .inr heq
      · exact .inl fun hnone' => hid' ((if_neg heq).trans hnone')
    · intro _ htotal
      have hsucc : p.totalMessages + 1 = 0 := (if_neg hfalse).symm.trans htotal
      exact absurd hsucc (Nat.succ_ne_zero _)

variable {identified : List (UiMessageId × UiRecord)}

theorem projects_stageRecords {generation : UiGeneration} {n : Numbering UiMessageId} {p q : UiState}
    {receipts : List UiAppendReceipt} (hsound : n.Sound) (hnext : n.next = p.nextPosition)
    (hplaced : Placed n p.entries)
    (hfinds : ∀ id ∈ identified.map Prod.fst, n.number id ≠ none → p.entries.contains id = true)
    (h : stageRecords generation identified p = .ok receipts q) :
    ∃ m, Projects n m p q := by
  induction identified generalizing n p receipts with
  | nil =>
    obtain ⟨-, rfl⟩ := pure_ok_iff.mp h
    exact ⟨n, .refl hsound hnext hplaced⟩
  | cons entry identified ih =>
    obtain ⟨id, record⟩ := entry
    obtain ⟨receipt, r, rest, hreceipt, hrest, -⟩ := stageRecords_cons_ok_iff.mp h
    obtain ⟨-, hproject, -⟩ := stageRecord_ok_iff.mp hreceipt
    obtain ⟨m, hfirst⟩ := projects_project hsound hnext hplaced
      (hfinds id (by rw [List.map_cons]; exact List.mem_cons_self)) hproject
    obtain ⟨k, hothers⟩ := ih hfirst.sound hfirst.next hfirst.placed (fun id' hid' hnumber => by
      rcases hfirst.added id' hnumber with hold | hnew
      · refine hfirst.kept id' (hfinds id' ?_ hold)
        rw [List.map_cons]
        exact List.mem_cons_of_mem _ hid'
      · exact hnew) hrest
    exact ⟨k, hfirst.trans hothers⟩

/-! ## Sections -/

/-- What a section does to the entries in memory, of a history whose other entries are stored. -/
structure Grown (stored : EntryMap) (n m : Numbering UiMessageId) (s t : UiState) : Prop where
  grows : n.Extends m
  sound : m.Sound
  next : m.next = t.nextPosition
  placed : Placed m t.entries
  kept : ∀ id : UiMessageId, s.entries.contains id = true →
    t.entries.contains id = true ∨ stored.contains id = true
  added : ∀ id, m.number id ≠ none → n.number id ≠ none ∨ t.entries.contains id = true
  /-- An entry is stored, or a new one, or at least as new as before. -/
  aged : ∀ (id : UiMessageId) (entry : UiEntry), t.entries[id]? = some entry →
    stored.contains id = true ∨ s.revision < entry.snapshot.revision ∨
      ∃ old, s.entries[id]? = some old ∧ old.snapshot.revision ≤ entry.snapshot.revision
  recent : ∀ (id : UiMessageId) (entry : UiEntry), t.entries[id]? = some entry →
    entry.snapshot.revision ≤ t.revision ∨ stored.contains id = true
  revision : s.revision ≤ t.revision
  generation : t.generation = s.generation
  committed : t.committedRevision = s.committedRevision
  empty : (s.totalMessages = 0 → n.next = 0) → t.totalMessages = 0 → m.next = 0

/-- The entries of a session with a numbering of its history. -/
structure Counted (n : Numbering UiMessageId) (stored : EntryMap) (s : UiState) : Prop where
  sound : n.Sound
  next : n.next = s.nextPosition
  rows : Placed n stored
  held : Placed n s.entries
  covers : ∀ id, n.number id ≠ none → stored.contains id = true ∨ s.entries.contains id = true
  recent : ∀ (id : UiMessageId) (entry : UiEntry), s.entries[id]? = some entry →
    entry.snapshot.revision ≤ s.revision ∨ stored.contains id = true
  old : ∀ (id : UiMessageId) (entry : UiEntry), s.entries[id]? = some entry →
    entry.snapshot.revision ≤ s.committedRevision → stored.contains id = true

variable {expected : Option UiGeneration}

section Sections

variable {stored : EntryMap} {n m : Numbering UiMessageId} {s t : UiState}

/-- A section that leaves the entries. -/
structure SameEntries (s t : UiState) : Prop where
  entries : t.entries = s.entries
  nextPosition : t.nextPosition = s.nextPosition
  totalMessages : t.totalMessages = s.totalMessages
  generation : t.generation = s.generation
  committed : t.committedRevision = s.committedRevision
  revision : s.revision ≤ t.revision

theorem SameEntries.refl (s : UiState) : SameEntries s s := ⟨rfl, rfl, rfl, rfl, rfl, le_rfl⟩

theorem SameEntries.trans {s t u : UiState} (h : SameEntries s t) (h' : SameEntries t u) :
    SameEntries s u where
  entries := h'.entries.trans h.entries
  nextPosition := h'.nextPosition.trans h.nextPosition
  totalMessages := h'.totalMessages.trans h.totalMessages
  generation := h'.generation.trans h.generation
  committed := h'.committed.trans h.committed
  revision := h.revision.trans h'.revision

/-- A section that drops entries that are stored. -/
structure Retires (s t : UiState) : Prop where
  subset : ∀ (id : UiMessageId) (entry : UiEntry), t.entries[id]? = some entry →
    s.entries[id]? = some entry
  kept : ∀ (id : UiMessageId) (entry : UiEntry), s.entries[id]? = some entry →
    t.entries[id]? = some entry ∨ entry.snapshot.revision ≤ s.committedRevision
  nextPosition : t.nextPosition = s.nextPosition
  totalMessages : t.totalMessages = s.totalMessages
  generation : t.generation = s.generation
  committed : t.committedRevision = s.committedRevision
  revision : s.revision ≤ t.revision

theorem SameEntries.retires (h : SameEntries s t) : Retires s t where
  __ := h
  subset := fun _ _ hentry => h.entries ▸ hentry
  kept := fun _ _ hentry => .inl (h.entries ▸ hentry)

theorem Retires.grown (h : Retires s t) (hs : Counted n stored s) : Grown stored n n s t where
  __ := h
  grows := .refl n
  sound := hs.sound
  next := hs.next.trans h.nextPosition.symm
  placed := hs.held.of_subset h.subset
  kept := by
    intro id hid
    obtain ⟨entry, hentry⟩ := held_iff_exists.mp hid
    rcases h.kept id entry hentry with hkept | hold
    · exact .inl (contains_of_get hkept)
    · exact .inr (hs.old id entry hentry hold)
  added := fun _ hid => .inl hid
  aged := fun id entry hentry => .inr (.inr ⟨entry, h.subset id entry hentry, le_rfl⟩)
  recent := by
    intro id entry hentry
    exact (hs.recent id entry (h.subset id entry hentry)).imp_left
      fun hle => hle.trans h.revision
  empty := fun hempty htotal => hempty (h.totalMessages ▸ htotal)

theorem Counted.grown_insert (hs : Counted n stored s)
    (hentries : t.entries = s.entries.insert id entry) (hid : entry.snapshot.id = id)
    (hnumber : n.number id = some entry.snapshot.position)
    (hrevision : entry.snapshot.revision = s.revision + 1) (ht : t.revision = s.revision + 1)
    (hnext : t.nextPosition = s.nextPosition) (htotal : t.totalMessages = s.totalMessages)
    (hgeneration : t.generation = s.generation)
    (hcommitted : t.committedRevision = s.committedRevision) : Grown stored n n s t where
  grows := .refl n
  sound := hs.sound
  next := hs.next.trans hnext.symm
  placed := by
    subst hid
    rw [hentries]
    exact hs.held.insert hnumber
  kept := by
    intro id' hid'
    rw [hentries, Std.ExtTreeMap.contains_insert, hid', Bool.or_true]
    exact .inl rfl
  added := fun _ hid => .inl hid
  aged := by
    intro id' entry' hentry'
    rw [hentries, get_insert] at hentry'
    split at hentry'
    · obtain rfl := Option.some.inj hentry'
      exact .inr (.inl (by omega))
    · exact .inr (.inr ⟨entry', hentry', le_rfl⟩)
  recent := by
    intro id' entry' hentry'
    rw [hentries, get_insert] at hentry'
    split at hentry'
    · obtain rfl := Option.some.inj hentry'
      exact .inl (by omega)
    · exact (hs.recent id' entry' hentry').imp_left fun hle => by omega
  revision := by omega
  generation := hgeneration
  committed := hcommitted
  empty := fun hempty hzero => hempty (htotal ▸ hzero)

theorem Counted.grown_add (hs : Counted n stored s)
    (hentries : t.entries = s.entries.insert entry.snapshot.id entry)
    (hnew : n.number entry.snapshot.id = none)
    (hposition : entry.snapshot.position = s.nextPosition)
    (hrevision : entry.snapshot.revision = s.revision + 1) (ht : t.revision = s.revision + 1)
    (hnext : t.nextPosition = s.nextPosition + 1) (htotal : t.totalMessages = s.totalMessages + 1)
    (hgeneration : t.generation = s.generation)
    (hcommitted : t.committedRevision = s.committedRevision) :
    Grown stored n (n.add entry.snapshot.id) s t where
  grows := Numbering.extends_add hnew
  sound := hs.sound.add _
  next := by
    rw [hnext, ← hs.next]
    rfl
  placed := by
    rw [hentries]
    refine (hs.held.mono (Numbering.extends_add hnew)).insert ?_
    rw [Numbering.number_add_self, hs.next, hposition]
  kept := by
    intro id hid
    rw [hentries, Std.ExtTreeMap.contains_insert, hid, Bool.or_true]
    exact .inl rfl
  added := by
    intro id hid
    by_cases heq : id = entry.snapshot.id
    · right
      rw [hentries, heq, Std.ExtTreeMap.contains_insert_self]
    · exact .inl fun hnone => hid ((if_neg heq).trans hnone)
  aged := by
    intro id entry' hentry'
    rw [hentries, get_insert] at hentry'
    split at hentry'
    · obtain rfl := Option.some.inj hentry'
      exact .inr (.inl (by omega))
    · exact .inr (.inr ⟨entry', hentry', le_rfl⟩)
  recent := by
    intro id entry' hentry'
    rw [hentries, get_insert] at hentry'
    split at hentry'
    · obtain rfl := Option.some.inj hentry'
      exact .inl (by omega)
    · exact (hs.recent id entry' hentry').imp_left fun hle => by omega
  revision := by omega
  generation := hgeneration
  committed := hcommitted
  empty := fun _ hzero => absurd (htotal ▸ hzero) (Nat.succ_ne_zero _)

/-- Taking over a copy, which held entries of memory, and stored ones of messages that are not
in memory. -/
theorem Counted.grown_commit (hs : Counted n stored s) {q : UiState}
    (hentries : ∀ (id : UiMessageId) (entry : UiEntry), entries[id]? = some entry →
      s.entries[id]? = some entry ∨ stored.contains id = true)
    (h : Projects n m (s.prepare entries) q) : Grown stored n m s (s.commit q) where
  __ := h
  placed := by
    intro id entry hentry
    rw [get_commit, map_eq_some_iff] at hentry
    obtain ⟨before, hbefore, rfl⟩ := hentry
    obtain ⟨hid, hposition⟩ := adopt_place q.toolOwners q.revision id before
    rw [hid, hposition]
    rcases or_eq_some_iff.mp hbefore with hbefore | ⟨-, hbefore⟩
    · exact h.placed id before hbefore
    · exact (hs.held.mono h.grows) id before hbefore
  kept := by
    intro id hid
    obtain ⟨entry, hentry⟩ := held_iff_exists.mp hid
    left
    rw [contains_eq_isSome, get_commit, isSome_map, hentry]
    cases q.entries[id]? <;> rfl
  added := by
    intro id hid
    refine (h.added id hid).imp_right fun hq => ?_
    obtain ⟨entry, hentry⟩ := held_iff_exists.mp hq
    rw [contains_eq_isSome, get_commit, isSome_map, hentry]
    rfl
  aged := by
    intro id entry hentry
    rw [get_commit, map_eq_some_iff] at hentry
    obtain ⟨before, hbefore, rfl⟩ := hentry
    have hold : ∀ old, s.entries[id]? = some old → old.snapshot.revision ≤
        before.snapshot.revision → stored.contains id = true ∨
        s.revision < (adopt q.toolOwners q.revision id before).snapshot.revision ∨
        ∃ old, s.entries[id]? = some old ∧ old.snapshot.revision ≤
          (adopt q.toolOwners q.revision id before).snapshot.revision := by
      intro old hold hle
      rcases adopt_revision q.toolOwners q.revision id before with hsame | hstamped
      · refine .inr (.inr ⟨old, hold, ?_⟩)
        rw [hsame]
        exact hle
      · rcases hs.recent id old hold with hrecent | hstored
        · refine .inr (.inr ⟨old, hold, ?_⟩)
          rw [hstamped]
          exact hrecent.trans h.revision
        · exact .inl hstored
    rcases or_eq_some_iff.mp hbefore with hbefore | ⟨-, hbefore⟩
    · rcases h.aged id before hbefore with hcopied | ⟨hlt, hle⟩
      · rcases hentries id before hcopied with hheld | hstored
        · exact hold before hheld le_rfl
        · exact .inl hstored
      · right
        left
        rcases adopt_revision q.toolOwners q.revision id before with hsame | hstamped
        · rw [hsame]
          exact hlt
        · rw [hstamped]
          exact hlt.trans_le hle
    · exact hold before hbefore le_rfl
  recent := by
    intro id entry hentry
    rw [get_commit, map_eq_some_iff] at hentry
    obtain ⟨before, hbefore, rfl⟩ := hentry
    rcases adopt_revision q.toolOwners q.revision id before with hsame | hstamped
    · rw [hsame]
      rcases or_eq_some_iff.mp hbefore with hbefore | ⟨-, hbefore⟩
      · rcases h.aged id before hbefore with hcopied | ⟨-, hle⟩
        · rcases hentries id before hcopied with hheld | hstored
          · exact (hs.recent id before hheld).imp_left fun hle => hle.trans h.revision
          · exact .inr hstored
        · exact .inl hle
      · exact (hs.recent id before hbefore).imp_left fun hle => hle.trans h.revision
    · exact .inl hstamped.le
  generation := rfl
  committed := rfl

/-! ### Sections that fail -/

theorem sameOnOk_check : KeepsOnOk SameEntries check := by
  intro s u t h
  obtain ⟨-, rfl⟩ := check_ok_iff.mp h
  exact .refl s

theorem sameOnError_check : KeepsOnError SameEntries check := by
  intro s e t h
  obtain rfl := check_error h
  exact .refl _

theorem sameOnOk_get : KeepsOnOk SameEntries (get : Section UiState) := by
  intro s a t h
  obtain ⟨-, rfl⟩ := get_ok_iff.mp h
  exact .refl s

theorem sameOnOk_lift {α : Type} (x : Except Error α) :
    KeepsOnOk SameEntries (CriticalSection.lift x : Section α) := by
  intro s a t h
  obtain ⟨-, rfl⟩ := lift_ok_iff.mp h
  exact .refl s

theorem sameOnOk_advance : KeepsOnOk SameEntries advance := by
  intro s r t h
  obtain ⟨-, -, rfl⟩ := advance_ok_iff.mp h
  exact ⟨rfl, rfl, rfl, rfl, rfl, Nat.le_succ _⟩

theorem sameOnError_advance : KeepsOnError SameEntries advance := by
  intro s e t h
  rcases advance_error h with rfl | rfl
  · exact .refl _
  · exact ⟨rfl, rfl, rfl, rfl, rfl, Nat.le_succ _⟩

theorem sameOnError_get {α : Type} {f : UiState → Section α}
    (hf : ∀ a, KeepsOnError SameEntries (f a)) : KeepsOnError SameEntries (get >>= f) :=
  keepsOnError_bind (fun _ _ _ => .trans) sameOnOk_get
    (keepsOnError_of_ok fun s => ⟨s, s, rfl⟩) hf

theorem sameOnError_checked {α : Type} {f : Unit → Section α}
    (hf : ∀ a, KeepsOnError SameEntries (f a)) : KeepsOnError SameEntries (check >>= f) :=
  keepsOnError_bind (fun _ _ _ => .trans) sameOnOk_check sameOnError_check hf

theorem sameOnError_advanced {α : Type} {f : ℕ → Section α}
    (hf : ∀ a, KeepsOnError SameEntries (f a)) :
    KeepsOnError SameEntries (advance >>= f) :=
  keepsOnError_bind (fun _ _ _ => .trans) sameOnOk_advance sameOnError_advance hf

theorem sameOnError_lifted {α β : Type} (x : Except Error α) {f : α → Section β}
    (hf : ∀ a, KeepsOnError SameEntries (f a)) :
    KeepsOnError SameEntries (CriticalSection.lift x >>= f) :=
  keepsOnError_bind (fun _ _ _ => .trans) (sameOnOk_lift x) (keepsOnError_lift .refl x) hf

theorem sameOnError_modify (f : UiState → UiState) :
    KeepsOnError SameEntries (modify f : Section Unit) :=
  keepsOnError_of_ok fun s => ⟨(), f s, rfl⟩

theorem sameOnError_bind (receipt : UiAppendReceipt) (index : ℕ) :
    KeepsOnError SameEntries (UiState.bind receipt index) := by
  unfold UiState.bind
  refine sameOnError_checked fun _ => sameOnError_get fun s =>
    keepsOnError_guard .refl (sameOnError_lifted _ fun stop => sameOnError_advanced fun revision =>
      sameOnError_get fun s => ?_)
  cases s.entries[receipt.id]? with
  | none => exact keepsOnError_throw .refl _
  | some entry => exact sameOnError_modify _

theorem sameOnError_updatePresentation (target : UiHistoryTarget) (presentation : UiPresentation)
    (stored : Option UiEntry) :
    KeepsOnError SameEntries (updatePresentation target presentation stored) := by
  unfold updatePresentation
  refine sameOnError_checked fun _ => sameOnError_get fun s => keepsOnError_guard .refl ?_
  cases s.entries[target.messageId]?.or stored with
  | none => exact keepsOnError_throw .refl _
  | some entry => exact sameOnError_advanced fun revision => sameOnError_modify _

theorem sameOnError_mutatePresentation (generation : UiGeneration) (runId : String)
    (id : UiMessageId) (update : UiPresentation → UiPresentation) :
    KeepsOnError SameEntries (mutatePresentation generation runId id update) := by
  unfold mutatePresentation
  refine sameOnError_checked fun _ => sameOnError_get fun s =>
    keepsOnError_guard .refl (keepsOnError_guard .refl (sameOnError_advanced fun revision =>
      sameOnError_get fun s => ?_))
  cases s.entries[id]? with
  | none => exact keepsOnError_throw .refl _
  | some entry => exact sameOnError_modify _

theorem sameOnError_updateRecord (parseUuid : String → Except String String)
    (expected current : UiRecordUpdate) (record : UiRecord) :
    KeepsOnError SameEntries (UiState.updateRecord parseUuid expected current record) := by
  unfold UiState.updateRecord
  exact sameOnError_checked fun _ => sameOnError_get fun s => keepsOnError_guard .refl
    (sameOnError_lifted _ fun entry => sameOnError_advanced fun revision => sameOnError_modify _)

theorem sameOnError_beginRun (metadata : UiRunMetadata) :
    KeepsOnError SameEntries (beginRun metadata) := by
  unfold beginRun
  exact sameOnError_checked fun _ => sameOnError_get fun s =>
    keepsOnError_guard .refl (sameOnError_modify _)

theorem sameOnError_startAttempt (generation : UiGeneration) (runId : String)
    (segmentId : Option ProviderSegmentId) :
    KeepsOnError SameEntries (startAttempt generation runId segmentId) := by
  unfold startAttempt
  refine sameOnError_checked fun _ => sameOnError_get fun s => keepsOnError_guard .refl ?_
  cases s.runs[runId]? with
  | none => exact keepsOnError_throw .refl _
  | some run => exact sameOnError_modify _

theorem sameOnError_ingest (parseUuid : String → Except String String) (record : UiRecord)
    (ingress : UiIngress) (expected : Option UiGeneration) (uuid : String) :
    KeepsOnError SameEntries (ingest parseUuid record ingress expected uuid) := by
  unfold ingest
  refine sameOnError_checked fun _ => sameOnError_get fun s => keepsOnError_guard .refl
    (sameOnError_lifted _ fun own => ?_)
  refine keepsOnError_bind (fun _ _ _ => .trans) ?_ ?_ fun prepared =>
    keepsOnError_of_ok fun s => ⟨_, _, rfl⟩
  · intro s a t h
    obtain ⟨-, rfl⟩ := onCopy_ok_iff.mp h
    exact .refl s
  · intro s e t h
    obtain rfl := onCopy_error h
    exact .refl _

theorem sameOnError_stageBatch (generation : UiGeneration) (loaded : EntryMap)
    (identified : List (UiMessageId × UiRecord)) :
    KeepsOnError SameEntries (stageBatch generation loaded identified) := by
  intro s e t h
  obtain rfl := stageBatch_error h
  exact .refl _

/-! ### Runs, failures and errors -/

theorem beginRun_ok {metadata : UiRunMetadata} {u : Unit}
    (h : beginRun metadata s = .ok u t) : SameEntries s t := by
  unfold beginRun at h
  simp only [bind_ok_iff, get_ok_iff, modify_ok_iff, check_ok_iff, guard_ok_iff] at h
  obtain ⟨_, _, ⟨-, rfl⟩, _, _, ⟨rfl, rfl⟩, -, rfl⟩ := h
  exact ⟨rfl, rfl, rfl, rfl, rfl, le_rfl⟩

theorem startAttempt_ok {generation : UiGeneration} {runId : String}
    {segmentId : Option ProviderSegmentId} {u : Unit}
    (h : startAttempt generation runId segmentId s = .ok u t) : SameEntries s t := by
  unfold startAttempt at h
  simp only [bind_ok_iff, get_ok_iff, check_ok_iff, guard_ok_iff] at h
  obtain ⟨_, _, ⟨-, rfl⟩, _, _, ⟨rfl, rfl⟩, -, h⟩ := h
  cases hrun : s.runs[runId]? with
  | none =>
    rw [hrun] at h
    cases h
  | some run =>
    rw [hrun] at h
    obtain rfl := modify_ok_iff.mp h
    exact ⟨rfl, rfl, rfl, rfl, rfl, le_rfl⟩

theorem stateAfter_fail (error : String) (s : UiState) :
    (∃ u t, fail error s = .ok u t ∧ SameEntries s t) := by
  unfold fail
  by_cases hfailure : s.failure = none
  · have hsame : SameEntries s { s with failure := some error } :=
      ⟨rfl, rfl, rfl, rfl, rfl, le_rfl⟩
    cases hadvance : advance { s with failure := some error } with
    | ok r t =>
      refine ⟨(), t, ?_, hsame.trans (sameOnOk_advance _ _ _ hadvance)⟩
      refine bind_ok_iff.mpr ⟨s, s, rfl, ?_⟩
      rw [if_pos hfailure]
      refine bind_ok_iff.mpr ⟨(), _, rfl, ?_⟩
      change EStateM.tryCatch _ _ _ = _
      unfold EStateM.tryCatch
      rw [show (advance >>= fun _ => pure ()) { s with failure := some error } =
        EStateM.Result.ok () t from bind_ok_iff.mpr ⟨r, t, hadvance, rfl⟩]
    | error e t =>
      refine ⟨(), t, ?_, hsame.trans (sameOnError_advance _ _ _ hadvance)⟩
      refine bind_ok_iff.mpr ⟨s, s, rfl, ?_⟩
      rw [if_pos hfailure]
      refine bind_ok_iff.mpr ⟨(), _, rfl, ?_⟩
      change EStateM.tryCatch _ _ _ = _
      unfold EStateM.tryCatch
      rw [show (advance >>= fun _ => pure ()) { s with failure := some error } =
        EStateM.Result.error e t from bind_error_iff.mpr (.inl hadvance)]
      rfl
  · refine ⟨(), s, ?_, .refl s⟩
    refine bind_ok_iff.mpr ⟨s, s, rfl, ?_⟩
    rw [if_neg hfailure]
    rfl

theorem retires_finished (runId : String) (s : UiState) :
    Retires s
      { s with
        runs := s.runs.erase runId
        entries := s.entries.filter fun _ entry =>
          entry.snapshot.revision > s.committedRevision ||
            entry.snapshot.content.runId ≠ some runId
        toolOwners := filterKeys (fun tool => !toolOfRun runId tool)
          s.toolOwners } where
  subset := by
    intro id entry hentry
    rw [Std.ExtTreeMap.getElem?_filter', filter_eq_some_iff] at hentry
    exact hentry.1
  kept := by
    intro id entry hentry
    by_cases hnew : entry.snapshot.revision > s.committedRevision
    · left
      rw [Std.ExtTreeMap.getElem?_filter', filter_eq_some_iff]
      exact ⟨hentry, by rw [decide_eq_true hnew, Bool.true_or]⟩
    · exact .inr (Nat.le_of_not_lt hnew)
  nextPosition := rfl
  totalMessages := rfl
  generation := rfl
  committed := rfl
  revision := le_rfl

theorem finishRegistered_ok {generation : UiGeneration} {runId : String} {u : Unit}
    (h : finishRegistered generation runId s = .ok u t) : Retires s t := by
  unfold finishRegistered at h
  simp only [bind_ok_iff, get_ok_iff, guard_ok_iff] at h
  obtain ⟨_, _, ⟨rfl, rfl⟩, -, h⟩ := h
  cases hunfinished : s.unfinished runId with
  | some failure =>
    rw [hunfinished] at h
    simp only [bind_ok_iff, throw_ok_iff] at h
    obtain ⟨_, _, -, _, _, -, hfalse⟩ := h
    exact hfalse.elim
  | none =>
    rw [hunfinished] at h
    obtain ⟨_, _, hmodify, hcheck⟩ := bind_ok_iff.mp h
    obtain rfl := modify_ok_iff.mp hmodify
    obtain ⟨-, rfl⟩ := check_ok_iff.mp hcheck
    exact retires_finished runId s

/-- A run that cannot be finished fails the session; one that is finished is so also in a session
that has failed. -/
theorem finishRegistered_error {generation : UiGeneration} {runId : String} {e : Error}
    (h : finishRegistered generation runId s = .error e t) : Retires s t := by
  unfold finishRegistered at h
  rcases bind_error_iff.mp h with h | ⟨_, _, hget, h⟩
  · cases h
  obtain ⟨rfl, rfl⟩ := get_ok_iff.mp hget
  by_cases hguard : s.generation ≠ generation ∨ ¬s.runs.contains runId = true
  · rw [if_pos hguard] at h
    cases h
    exact (SameEntries.refl s).retires
  rw [if_neg hguard] at h
  cases hunfinished : s.unfinished runId with
  | some failure =>
    rw [hunfinished] at h
    have hsame : SameEntries s { s with failure := some failure } :=
      ⟨rfl, rfl, rfl, rfl, rfl, le_rfl⟩
    rcases bind_error_iff.mp h with h | ⟨_, _, hmodify, h⟩
    · cases h
    obtain rfl := modify_ok_iff.mp hmodify
    rcases bind_error_iff.mp h with hadvance | ⟨_, _, hadvance, h⟩
    · exact (hsame.trans (sameOnError_advance _ _ _ hadvance)).retires
    · cases h
      exact (hsame.trans (sameOnOk_advance _ _ _ hadvance)).retires
  | none =>
    rw [hunfinished] at h
    rcases bind_error_iff.mp h with h | ⟨_, _, hmodify, h⟩
    · cases h
    obtain rfl := modify_ok_iff.mp hmodify
    obtain rfl := check_error h
    exact retires_finished runId s

theorem advance_of_room {s : UiState} (h : s.revision + 1 < 2 ^ 63) :
    advance s = .ok (s.revision + 1) { s with revision := s.revision + 1 } :=
  advance_ok_iff.mpr ⟨h, rfl, rfl⟩

theorem insertError_error {error : UiProviderError}
    {uuid : String} {e : Error} (h : insertError error expected uuid s = .error e t)
    (hposition : s.nextPosition + 1 < 2 ^ 63) (htotal : s.totalMessages + 1 < 2 ^ 32)
    (hrevision : s.revision + 1 < 2 ^ 63) : SameEntries s t := by
  unfold insertError at h
  rcases bind_error_iff.mp h with h | ⟨_, _, hcheck, h⟩
  · exact sameOnError_check _ _ _ h
  obtain ⟨-, rfl⟩ := check_ok_iff.mp hcheck
  rcases bind_error_iff.mp h with h | ⟨_, _, hget, h⟩
  · cases h
  obtain ⟨rfl, rfl⟩ := get_ok_iff.mp hget
  by_cases hguard : (expected.any fun generation =>
      generation ≠ s.generation || !s.runs.contains error.runId) = true
  · rw [if_pos hguard] at h
    cases h
    exact .refl s
  rw [if_neg hguard] at h
  rcases bind_error_iff.mp h with h | ⟨_, s₁, hmodify, h⟩
  · cases h
  have hsame : s₁.nextPosition = s.nextPosition ∧ s₁.totalMessages = s.totalMessages ∧
      s₁.revision = s.revision := by
    obtain rfl := modify_ok_iff.mp hmodify
    cases s.runs[error.runId]? with
    | none | some run => exact ⟨rfl, rfl, rfl⟩
  -- the counters do not overflow
  have hallocate := allocate_ok_iff.mpr ⟨hsame.1 ▸ hposition, hsame.2.1 ▸ htotal, rfl, rfl⟩
  rcases bind_error_iff.mp h with h | ⟨_, s₂, hok, h⟩
  · rw [hallocate] at h
    cases h
  obtain ⟨-, -, -, rfl⟩ := allocate_ok_iff.mp hok
  rcases bind_error_iff.mp h with h | ⟨_, s₃, hok, h⟩
  · rw [advance_of_room] at h
    · cases h
    · exact hsame.2.2 ▸ hrevision
  · cases h

theorem insertError_ok {error : UiProviderError}
    {uuid : String} (h : insertError error expected uuid s = .ok id t) :
    ∃ entry : UiEntry, entry.snapshot.id = uuid ∧ entry.snapshot.position = s.nextPosition ∧
      entry.snapshot.revision = s.revision + 1 ∧ t.entries = s.entries.insert uuid entry ∧
      t.nextPosition = s.nextPosition + 1 ∧ t.totalMessages = s.totalMessages + 1 ∧
      t.revision = s.revision + 1 ∧ t.generation = s.generation ∧
      t.committedRevision = s.committedRevision := by
  unfold insertError at h
  simp only [bind_ok_iff, get_ok_iff, modify_ok_iff, check_ok_iff, guard_ok_iff,
    allocate_ok_iff, advance_ok_iff, pure_ok_iff] at h
  obtain ⟨_, _, ⟨-, rfl⟩, _, _, ⟨rfl, rfl⟩, -, _, s₁, rfl, _, _, ⟨-, -, rfl, rfl⟩, _, _,
    ⟨-, rfl, rfl⟩, _, _, rfl, rfl, rfl⟩ := h
  cases s.runs[error.runId]? with
  | none | some run => exact ⟨_, rfl, rfl, rfl, rfl, rfl, rfl, rfl, rfl, rfl⟩

/-! ### All sections -/

theorem validateRecordUpdate_place {parseUuid : String → Except String String}
    {entry entry' : UiEntry}
    (h : validateRecordUpdate parseUuid entry record = .ok entry') :
    entry'.snapshot.id = entry.snapshot.id ∧
      entry'.snapshot.position = entry.snapshot.position := by
  unfold validateRecordUpdate at h
  obtain ⟨-, h⟩ := guard_eq_ok.mp h
  cases hcontent : entry.snapshot.content with
  | error error =>
    rw [hcontent] at h
    cases h
  | record existing =>
    rw [hcontent] at h
    obtain ⟨-, h⟩ := guard_eq_ok.mp h
    obtain ⟨before, -, h⟩ := bind_eq_ok.mp h
    obtain ⟨after, -, h⟩ := bind_eq_ok.mp h
    obtain ⟨-, h⟩ := guard_eq_ok.mp h
    obtain ⟨updated, hproject, h⟩ := bind_eq_ok.mp h
    cases updated with
    | none => cases h
    | some updated =>
      obtain ⟨contentVersion, -, h⟩ := bind_eq_ok.mp h
      cases h
      obtain ⟨hid, hposition⟩ := project_place hproject
      exact ⟨hid, hposition⟩

end Sections

section Steps

variable {parseUuid : String → Except String String} {s : StoredSession} {call : SessionCall}
  {n : Numbering UiMessageId} {state : UiState} {α : Type} {x : Section α}

/-- What calls have read in this generation is in its place. -/
def KnownPlaces (n : Numbering UiMessageId) (s : StoredSession) : Prop :=
  ∀ generation entry, (generation, entry) ∈ s.known → generation = s.state.generation →
    n.number entry.snapshot.id = some entry.snapshot.position

theorem KnownPlaces.stored_or_held (hknown : KnownPlaces n s) (hs : Counted n s.stored s.state)
    (h : (s.state.generation, entry) ∈ s.known) :
    s.stored.contains entry.snapshot.id = true ∨
      s.state.entries.contains entry.snapshot.id = true := by
  refine hs.covers _ ?_
  rw [hknown _ _ h rfl]
  exact some_ne_none _

theorem ingest_grown {uuid : String}
    (hok : UiState.ingest parseUuid record ingress expected uuid s.state = .ok id state)
    (hfinds : Finds parseUuid s (.ingest record ingress expected uuid))
    (hs : Counted n s.stored s.state) : ∃ m, Grown s.stored n m s.state state := by
  obtain ⟨-, own, prepared, hown, rfl, hproject, rfl⟩ := UiState.ingest_ok_iff.mp hok
  have hheld : ∀ (id : UiMessageId) (entry : UiEntry),
      (s.state.held (own.getD uuid))[id]? = some entry → s.state.entries[id]? = some entry := by
    intro id entry hentry
    rw [UiState.get_held] at hentry
    split at hentry
    · exact hentry
    · cases hentry
  have hplaced : Placed n (s.state.held (own.getD uuid)) := hs.held.of_subset hheld
  have hfound : n.number (own.getD uuid) ≠ none →
      (s.state.held (own.getD uuid)).contains (own.getD uuid) = true := by
    intro hnumber
    have hmem : s.state.entries.contains (own.getD uuid) = true := by
      rcases hs.covers _ hnumber with hstored | hheld
      · exact hfinds own hown hstored
      · exact hheld
    rw [OrderedMap.contains_eq_isSome] at hmem ⊢
    rw [UiState.get_held, if_pos rfl]
    exact hmem
  obtain ⟨m, hm⟩ := projects_project (p := s.state.prepare (s.state.held (own.getD uuid)))
    hs.sound hs.next hplaced hfound hproject
  exact ⟨m, hs.grown_commit (fun id entry hentry => .inl (hheld id entry hentry)) hm⟩

theorem stageBatch_grown {generation : UiGeneration} {loaded : EntryMap}
    {receipts : List UiAppendReceipt}
    (hok : stageBatch generation loaded identified s.state = .ok receipts state)
    (hloaded : ∀ (id : UiMessageId) (entry : UiEntry), loaded[id]? = some entry →
      id ∈ identified.map Prod.fst ∧ entry.snapshot.id = id ∧ (generation, entry) ∈ s.known)
    (hfinds : Finds parseUuid s (.stage generation loaded identified))
    (hs : Counted n s.stored s.state) (hknown : KnownPlaces n s) :
    ∃ m, Grown s.stored n m s.state state := by
  obtain ⟨-, rfl, prepared, hstage, rfl⟩ := stageBatch_ok_iff.mp hok
  -- an entry of the copy is in memory, or was loaded from the table
  have hentries : ∀ (id : UiMessageId) (entry : UiEntry),
      (s.state.staged loaded identified)[id]? = some entry →
      s.state.entries[id]? = some entry ∨
        (s.state.entries[id]? = none ∧ loaded[id]? = some entry) := by
    intro id entry hentry
    rw [get_staged] at hentry
    split at hentry
    · exact or_eq_some_iff.mp hentry
    · rename_i hnot
      exact absurd (hloaded id entry hentry).1 hnot
  have hplaced : Placed n (s.state.staged loaded identified) := by
    intro id entry hentry
    rcases hentries id entry hentry with hheld | ⟨-, hloaded'⟩
    · exact hs.held id entry hheld
    · obtain ⟨-, rfl, hread⟩ := hloaded id entry hloaded'
      exact ⟨rfl, hknown _ _ hread rfl⟩
  have hfound : ∀ id ∈ identified.map Prod.fst, n.number id ≠ none →
      (s.state.staged loaded identified).contains id = true := by
    intro id hid hnumber
    have hmem : s.state.entries.contains id = true ∨ loaded.contains id = true := by
      rcases hs.covers id hnumber with hstored | hheld
      · exact hfinds id hid hstored
      · exact .inl hheld
    simp only [contains_eq_isSome] at hmem ⊢
    rw [get_staged, if_pos hid, isSome_or, Bool.or_eq_true]
    exact hmem
  obtain ⟨m, hm⟩ := projects_stageRecords (p := s.state.prepare (s.state.staged loaded identified))
    hs.sound hs.next hplaced hfound hstage
  have hgrown := hs.grown_commit (fun id entry hentry => by
    rcases hentries id entry hentry with hheld | ⟨hnone, hloaded'⟩
    · exact .inl hheld
    · obtain ⟨-, rfl, hread⟩ := hloaded id entry hloaded'
      rcases hknown.stored_or_held hs hread with hstored | hheld
      · exact .inr hstored
      · obtain ⟨other, hother⟩ := held_iff_exists.mp hheld
        rw [hnone] at hother
        cases hother) hm
  exact ⟨m, { hgrown with }⟩

/-- **A section that succeeds** moves no entry, and numbers what it adds. -/
theorem Enters.grown (henters : Enters parseUuid s call x) {a : α} (hok : x s.state = .ok a state)
    (hfinds : Finds parseUuid s call) (hs : Counted n s.stored s.state)
    (hknown : KnownPlaces n s) : ∃ m, Grown s.stored n m s.state state := by
  cases henters with
  | ingest record ingress expected uuid => exact ingest_grown hok hfinds hs
  | stage generation loaded identified hloaded =>
    exact stageBatch_grown hok hloaded hfinds hs hknown
  | recordError error expected uuid =>
    obtain ⟨hstored, hheld, -⟩ := hfinds
    obtain ⟨entry, rfl, hposition, hrevision, hentries, hnext, htotal, ht, hgeneration,
      hcommitted⟩ := insertError_ok hok
    have hnew : n.number entry.snapshot.id = none := by
      by_contra hsome
      rcases hs.covers _ hsome with h | h
      · rw [hstored] at h
        cases h
      · rw [hheld] at h
        cases h
    exact ⟨_, hs.grown_add hentries hnew hposition hrevision ht hnext htotal hgeneration
      hcommitted⟩
  | bind receipt index =>
    obtain ⟨-, -, -, -, -, entry, hentry, rfl⟩ := bindReceipt_ok_iff.mp hok
    obtain ⟨hid, hnumber⟩ := hs.held _ _ hentry
    exact ⟨n, hs.grown_insert rfl hid hnumber rfl rfl rfl rfl rfl rfl⟩
  | updatePresentation target presentation stored hstored =>
    obtain ⟨-, hgeneration, -, entry, hentry, rfl⟩ := updatePresentation_ok_iff.mp hok
    have hplace : entry.snapshot.id = target.messageId ∧
        n.number target.messageId = some entry.snapshot.position := by
      rcases or_eq_some_iff.mp hentry with hheld | ⟨-, rfl⟩
      · exact hs.held _ _ hheld
      · obtain ⟨hid, hread⟩ := hstored entry rfl
        exact ⟨hid, hid ▸ hknown _ _ hread hgeneration.symm⟩
    exact ⟨n, hs.grown_insert rfl hplace.1 hplace.2 rfl rfl rfl rfl rfl rfl⟩
  | mutatePresentation generation runId id update =>
    obtain ⟨-, -, -, -, entry, hentry, -, rfl⟩ := mutatePresentation_ok_iff.mp hok
    obtain ⟨hid, hnumber⟩ := hs.held _ _ hentry
    exact ⟨n, hs.grown_insert rfl hid hnumber rfl rfl rfl rfl rfl rfl⟩
  | updateRecord expected current record hcurrent =>
    obtain ⟨-, -, ⟨hgeneration, -⟩, entry, hvalid, rfl⟩ := updateRecord_ok_iff.mp hok
    obtain ⟨hid, hposition⟩ := validateRecordUpdate_place hvalid
    have hplace : n.number entry.snapshot.id = some entry.snapshot.position := by
      rw [hid, hposition]
      cases hheld : s.state.entries[current.entry.snapshot.id]? with
      | some old =>
        obtain ⟨hold, hnumber⟩ := hs.held _ _ hheld
        rw [getD_some, hold]
        exact hnumber
      | none => exact hknown _ _ (hcurrent hgeneration) hgeneration.symm
    exact ⟨n, hs.grown_insert rfl rfl hplace rfl rfl rfl rfl rfl rfl⟩
  | beginRun metadata => exact ⟨n, (beginRun_ok hok).retires.grown hs⟩
  | startAttempt generation runId segmentId => exact ⟨n, (startAttempt_ok hok).retires.grown hs⟩
  | finishRegistered generation runId => exact ⟨n, (finishRegistered_ok hok).grown hs⟩
  | fail error =>
    obtain ⟨_, t, ht, hsame⟩ := stateAfter_fail error s.state
    rw [ht] at hok
    cases hok
    exact ⟨n, hsame.retires.grown hs⟩

/-- **A section that fails** moves no entry and adds none. -/
theorem Enters.refused (henters : Enters parseUuid s call x) {e : Error}
    (herror : x s.state = .error e state) (hfinds : Finds parseUuid s call) :
    Retires s.state state := by
  cases henters with
  | ingest record ingress expected uuid =>
    exact (sameOnError_ingest _ _ _ _ _ _ _ _ herror).retires
  | stage generation loaded identified hloaded =>
    exact (sameOnError_stageBatch _ _ _ _ _ _ herror).retires
  | recordError error expected uuid =>
    obtain ⟨-, -, hposition, htotal, hrevision⟩ := hfinds
    exact (insertError_error herror hposition htotal hrevision).retires
  | bind receipt index => exact (sameOnError_bind _ _ _ _ _ herror).retires
  | updatePresentation target presentation stored hstored =>
    exact (sameOnError_updatePresentation _ _ _ _ _ _ herror).retires
  | mutatePresentation generation runId id update =>
    exact (sameOnError_mutatePresentation _ _ _ _ _ _ _ herror).retires
  | updateRecord expected current record hcurrent =>
    exact (sameOnError_updateRecord _ _ _ _ _ _ _ herror).retires
  | beginRun metadata => exact (sameOnError_beginRun _ _ _ _ herror).retires
  | startAttempt generation runId segmentId =>
    exact (sameOnError_startAttempt _ _ _ _ _ _ herror).retires
  | finishRegistered generation runId => exact finishRegistered_error herror
  | fail error =>
    obtain ⟨_, t, ht, -⟩ := stateAfter_fail error s.state
    rw [ht] at herror
    cases herror

theorem Enters.generation (henters : Enters parseUuid s call x) {a : α}
    (hok : x s.state = .ok a state) : state.generation = s.state.generation := by
  cases henters with
  | ingest record ingress expected uuid =>
    exact ((Publishes.ingest _ record ingress expected uuid).grows hok).generation
  | stage generation loaded identified hloaded =>
    exact ((Publishes.stageBatch generation loaded identified).grows hok).generation
  | recordError error expected uuid =>
    obtain ⟨-, -, -, -, -, -, -, -, hgeneration, -⟩ := insertError_ok hok
    exact hgeneration
  | bind receipt index => exact ((Publishes.bind receipt index).grows hok).generation
  | updatePresentation target presentation stored hstored =>
    exact ((Publishes.updatePresentation target presentation stored).grows hok).generation
  | mutatePresentation generation runId id update =>
    exact ((Publishes.mutatePresentation generation runId id update).grows hok).generation
  | updateRecord expected current record hcurrent =>
    exact ((Publishes.updateRecord _ expected current record).grows hok).generation
  | beginRun metadata => exact (beginRun_ok hok).generation
  | startAttempt generation runId segmentId => exact (startAttempt_ok hok).generation
  | finishRegistered generation runId => exact (finishRegistered_ok hok).generation
  | fail error =>
    obtain ⟨_, t, ht, hsame⟩ := stateAfter_fail error s.state
    rw [ht] at hok
    cases hok
    exact hsame.generation

end Steps

end Chelix.Sessions
