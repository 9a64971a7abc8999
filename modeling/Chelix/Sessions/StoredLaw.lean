import Chelix.Sessions.EntryNumbers

/-!
# The rows of a session over whole runs

As long as calls find the messages that they name, the entries in memory and in the table are in
the places of one numbering, in every state in which no truncation is between its rows and its
state.
-/

namespace Chelix.Sessions

open Option

open Chelix.Library Chelix.Common List

/-! ## Rows with the next position -/

/-- Rows in the places of a numbering of their messages. -/
def Listed (next : ℕ) (entries : EntryMap) : Prop :=
  ∃ r : Numbering UiMessageId, r.Sound ∧ r.next = next ∧ Placed r entries ∧
    ∀ id, r.number id ≠ none → entries.contains id = true

variable {entries : EntryMap} {entry : UiEntry}

theorem mem_values :
    entry ∈ entries.toList.map Prod.snd ↔ ∃ id : UiMessageId, entries[id]? = some entry := by
  rw [List.mem_map]
  constructor
  · rintro ⟨⟨id, _⟩, hmem, rfl⟩
    exact ⟨id, OrderedMap.mem_toList.mp hmem⟩
  · rintro ⟨id, hentry⟩
    exact ⟨(id, entry), OrderedMap.mem_toList.mpr hentry, rfl⟩

theorem nextPositionOf_cases (entries : EntryMap) :
    (∀ (id : UiMessageId) (entry : UiEntry), entries[id]? = some entry →
      entry.snapshot.position < nextPositionOf entries) ∧
    (nextPositionOf entries = 0 ∨ ∃ (id : UiMessageId) (entry : UiEntry),
      entries[id]? = some entry ∧ entry.snapshot.position + 1 = nextPositionOf entries) := by
  unfold nextPositionOf
  cases hmax : ((entries.toList.map Prod.snd).map fun entry => entry.snapshot.position + 1).max?
    with
  | none =>
    have hnil := map_eq_nil_iff.mp (List.max?_eq_none_iff.mp hmax)
    refine ⟨fun id entry hentry => ?_, .inl rfl⟩
    have hmem := mem_values.mpr ⟨id, hentry⟩
    rw [hnil] at hmem
    exact absurd hmem not_mem_nil
  | some top =>
    obtain ⟨hmem, hle⟩ := List.max?_eq_some_iff.mp hmax
    obtain ⟨last, hlast, rfl⟩ := List.mem_map.mp hmem
    obtain ⟨id, hid⟩ := mem_values.mp hlast
    refine ⟨fun id' entry hentry => ?_, .inr ⟨id, last, hid, rfl⟩⟩
    exact hle _ (mem_map_of_mem (mem_values.mpr ⟨id', hentry⟩))

theorem listed_of_distinct
    (hids : ∀ (id : UiMessageId) (entry : UiEntry), entries[id]? = some entry →
      entry.snapshot.id = id) (hpositions : ∀ (id id' : UiMessageId) (entry entry' : UiEntry),
      entries[id]? = some entry → entries[id']? = some entry' →
      entry.snapshot.position = entry'.snapshot.position → id = id') :
    Listed (nextPositionOf entries) entries := by
  obtain ⟨hbelow, hlast⟩ := nextPositionOf_cases entries
  refine ⟨⟨nextPositionOf entries, fun id => entries[id]?.map fun entry =>
    entry.snapshot.position⟩, ⟨?_, ?_, ?_⟩, rfl, ?_, ?_⟩
  · intro id id' position hid hid'
    obtain ⟨entry, hentry, rfl⟩ := map_eq_some_iff.mp hid
    obtain ⟨entry', hentry', heq⟩ := map_eq_some_iff.mp hid'
    exact hpositions id id' entry entry' hentry hentry' heq.symm
  · intro id position hid
    obtain ⟨entry, hentry, rfl⟩ := map_eq_some_iff.mp hid
    exact hbelow id entry hentry
  · rcases hlast with hzero | ⟨id, entry, hentry, heq⟩
    · exact .inl hzero
    · refine .inr ⟨id, map_eq_some_iff.mpr ⟨entry, hentry, ?_⟩⟩
      change entry.snapshot.position = nextPositionOf entries - 1
      omega
  · intro id entry hentry
    exact ⟨hids id entry hentry, map_eq_some_iff.mpr ⟨entry, hentry, rfl⟩⟩
  · intro id hid
    obtain ⟨position, hposition⟩ := ne_none_iff_exists'.mp hid
    obtain ⟨entry, hentry, -⟩ := map_eq_some_iff.mp hposition
    exact contains_of_get hentry

theorem Listed.of_subset {next : ℕ} {others : EntryMap} (h : Listed next entries)
    (hsub : ∀ (id : UiMessageId) (entry : UiEntry), others[id]? = some entry →
      entries[id]? = some entry) : Listed (nextPositionOf others) others := by
  obtain ⟨r, hsound, -, hplaced, -⟩ := h
  refine listed_of_distinct (fun id entry hentry => (hplaced id entry (hsub id entry hentry)).1) ?_
  intro id id' entry entry' hentry hentry' heq
  have hnumber := (hplaced id entry (hsub id entry hentry)).2
  have hnumber' := (hplaced id' entry' (hsub id' entry' hentry')).2
  rw [← heq] at hnumber'
  exact hsound.injective id id' _ hnumber hnumber'

theorem nextPositionOf_eq_zero (h : entries.size = 0) : nextPositionOf entries = 0 := by
  have hnil : entries.toList = [] := by
    rw [← length_eq_zero_iff, Std.ExtTreeMap.length_toList]
    exact h
  unfold nextPositionOf
  rw [hnil]
  rfl

variable {canonicalTail : ℕ} {id : UiMessageId}

theorem truncateStored_subset {stored : EntryMap}
    (h : (truncateStored stored canonicalTail)[id]? = some entry) : stored[id]? = some entry := by
  unfold truncateStored at h
  split at h
  · cases h
  · simp only at h
    rw [Std.ExtTreeMap.getElem?_filter', filter_eq_some_iff] at h
    exact h.1

theorem get_copiedRows {entries : List UiEntry} (h : (copiedRows entries)[id]? = some entry) :
    entry ∈ entries ∧ entry.snapshot.id = id := by
  have hfold : ∀ (rows : EntryMap) (entries : List UiEntry),
      (entries.foldl (fun stored entry => stored.insert entry.snapshot.id entry) rows)[id]? =
        some entry → rows[id]? = some entry ∨ (entry ∈ entries ∧ entry.snapshot.id = id) := by
    intro rows entries h
    induction entries generalizing rows with
    | nil => exact .inl h
    | cons first entries ih =>
      rw [foldl_cons] at h
      rcases ih _ h with hget | ⟨hmem, hid⟩
      · rw [OrderedMap.get_insert] at hget
        split at hget
        · rename_i heq
          obtain rfl := Option.some.inj hget
          exact .inr ⟨mem_cons_self, heq⟩
        · exact .inl hget
      · exact .inr ⟨mem_cons_of_mem _ hmem, hid⟩
  rcases hfold ∅ entries h with hget | h
  · cases hget
  · exact h

theorem listed_copiedRows {entries : List UiEntry}
    (hpositions : (entries.map fun entry => entry.snapshot.position).Nodup) :
    Listed (nextPositionOf (copiedRows entries)) (copiedRows entries) := by
  refine listed_of_distinct (fun id entry h => (get_copiedRows h).2) ?_
  intro id id' entry entry' hentry hentry' heq
  obtain ⟨hmem, rfl⟩ := get_copiedRows hentry
  obtain ⟨hmem', rfl⟩ := get_copiedRows hentry'
  rw [inj_on_of_nodup_map hpositions hmem hmem' heq]

/-! ## The invariants -/

/-- What holds of the rows in every state. -/
structure RowsKept (s : StoredSession) : Prop where
  listed : Listed s.row.nextPosition s.stored
  empty : s.row.totalMessages = 0 → s.row.nextPosition = 0
  rowGeneration : s.row.generation ∈ s.generations
  generation : s.state.generation ∈ s.generations
  known : ∀ generation entry, (generation, entry) ∈ s.known → generation ∈ s.generations
  /-- Nothing was read in a generation that the state is not in yet. -/
  unread : s.row.generation ≠ s.state.generation →
    ∀ generation entry, (generation, entry) ∈ s.known → generation ≠ s.row.generation
  flushing : ∀ captured entries, s.writer = .flushing captured entries →
    captured.generation = s.state.generation
  truncated : ∀ canonicalTail, s.writer = .truncated canonicalTail →
    s.row.generation ≠ s.state.generation

/-- What a flush has taken from the state, and what it has stored. -/
def WriterKeeps (n : Numbering UiMessageId) (s : StoredSession) : RowWriter → Prop
  | .flushing captured entries =>
    s.progress ≤ captured.revision ∧ captured.revision ≤ s.state.revision ∧ Placed n entries ∧
      (∀ (id : UiMessageId) (entry : UiEntry), s.state.entries[id]? = some entry →
        entry.snapshot.revision ≤ captured.revision →
        s.stored.contains id = true ∨ entries.contains id = true) ∧
      Listed captured.nextPosition (s.stored ∪ entries) ∧
      (captured.totalMessages = 0 → captured.nextPosition = 0)
  | .flushed _ revision =>
    s.progress ≤ revision ∧ revision ≤ s.state.revision ∧
      ∀ (id : UiMessageId) (entry : UiEntry), s.state.entries[id]? = some entry →
        entry.snapshot.revision ≤ revision → s.stored.contains id = true
  | .idle | .truncating _ _ _ | .truncated _ => True

/-- The entries of a settled session in the places of a numbering. -/
structure Tally (n : Numbering UiMessageId) (s : StoredSession) : Prop where
  counted : Counted n s.stored s.state
  known : KnownPlaces n s
  empty : s.state.totalMessages = 0 → n.next = 0
  committed : s.state.committedRevision = s.progress
  progress : s.progress ≤ s.state.revision
  writer : WriterKeeps n s s.writer

/-- The rows are kept, and a settled session is in the places of some numbering. -/
structure Upkept (s : StoredSession) : Prop where
  rows : RowsKept s
  settled : s.Settled → ∃ n, Tally n s

theorem upkept_new (generation : UiGeneration) : Upkept (.new generation) where
  rows :=
    { listed := ⟨.empty, .empty, rfl, .empty _, fun _ h => absurd rfl h⟩
      empty := fun _ => rfl
      rowGeneration := mem_singleton_self _
      generation := mem_singleton_self _
      known := fun _ _ h => absurd h not_mem_nil
      unread := fun h => absurd rfl h
      flushing := by
        intro captured entries h
        cases h
      truncated := by
        intro canonicalTail h
        cases h }
  settled := fun _ => ⟨.empty,
    { counted :=
        { sound := .empty
          next := rfl
          rows := .empty _
          held := .empty _
          covers := fun _ h => absurd rfl h
          recent := by
            intro id entry h
            cases h
          old := by
            intro id entry h
            cases h }
      known := fun _ _ h => absurd h not_mem_nil
      empty := fun _ => rfl
      committed := rfl
      progress := le_rfl
      writer := trivial }⟩

/-! ## Steps -/

variable {generation : UiGeneration}

section Steps

variable {parseUuid : String → Except String String} {s : StoredSession}
  {n m : Numbering UiMessageId} {state : UiState}

theorem Tally.of_grown (h : Tally n s) (hgrown : Grown s.stored n m s.state state) :
    Tally m { s with state } where
  counted :=
    { sound := hgrown.sound
      next := hgrown.next
      rows := h.counted.rows.mono hgrown.grows
      held := hgrown.placed
      covers := by
        intro id hid
        rcases hgrown.added id hid with hold | hnew
        · rcases h.counted.covers id hold with hstored | hheld
          · exact .inl hstored
          · exact (hgrown.kept id hheld).symm
        · exact .inr hnew
      recent := hgrown.recent
      old := by
        intro id entry hentry hle
        have hcommitted : state.committedRevision = s.progress :=
          hgrown.committed.trans h.committed
        rcases hgrown.aged id entry hentry with hstored | hlt | ⟨old, hold, hle'⟩
        · exact hstored
        · have := h.progress
          rw [hcommitted] at hle
          omega
        · refine h.counted.old id old hold (hle'.trans ?_)
          rw [hgrown.committed] at hle
          exact hle }
  known := by
    intro generation entry hread hgeneration
    exact hgrown.grows _ _ (h.known generation entry hread
      (hgeneration.trans hgrown.generation))
  empty := hgrown.empty h.empty
  committed := hgrown.committed.trans h.committed
  progress := h.progress.trans hgrown.revision
  writer := by
    have hwriter := h.writer
    -- an entry that is not newer than the state was is stored, or was in memory as new as now
    have haged : ∀ (stored : UiMessageId → Prop) (revision : ℕ), revision ≤ s.state.revision →
        (∀ id : UiMessageId, s.stored.contains id = true → stored id) →
        (∀ (id : UiMessageId) (entry : UiEntry), s.state.entries[id]? = some entry →
          entry.snapshot.revision ≤ revision → stored id) →
        ∀ (id : UiMessageId) (entry : UiEntry), state.entries[id]? = some entry →
          entry.snapshot.revision ≤ revision → stored id := by
      intro stored revision hrevision hstored hheld id entry hentry hle
      rcases hgrown.aged id entry hentry with h | hlt | ⟨old, hold, hle'⟩
      · exact hstored id h
      · omega
      · exact hheld id old hold (hle'.trans hle)
    change WriterKeeps m { s with state } s.writer
    cases hcase : s.writer with
    | idle | truncating canonicalTail previous revision | truncated canonicalTail => trivial
    | flushing captured entries =>
      rw [hcase] at hwriter
      obtain ⟨hprogress, hrevision, hplaced, hheld, hlisted, hempty⟩ := hwriter
      exact ⟨hprogress, hrevision.trans hgrown.revision, hplaced.mono hgrown.grows,
        haged _ _ hrevision (fun _ => .inl) hheld, hlisted, hempty⟩
    | flushed generation revision =>
      rw [hcase] at hwriter
      obtain ⟨hprogress, hrevision, hheld⟩ := hwriter
      exact ⟨hprogress, hrevision.trans hgrown.revision,
        haged _ _ hrevision (fun _ => id) hheld⟩

theorem RowsKept.of_state (h : RowsKept s) (hgeneration : state.generation = s.state.generation) :
    RowsKept { s with state } where
  __ := h
  generation := hgeneration ▸ h.generation
  unread := fun hne => h.unread (hgeneration ▸ hne)
  flushing := fun captured entries hwriter => hgeneration ▸ h.flushing captured entries hwriter
  truncated := fun canonicalTail hwriter => hgeneration ▸ h.truncated canonicalTail hwriter

theorem upkept_of_grown (h : Upkept s) (hgeneration : state.generation = s.state.generation)
    (hgrown : ∀ n, Tally n s → ∃ m, Grown s.stored n m s.state state) :
    Upkept { s with state } where
  rows := h.rows.of_state hgeneration
  settled := by
    intro hsettled
    obtain ⟨n, hn⟩ := h.settled (Eq.trans hsettled hgeneration)
    obtain ⟨m, hm⟩ := hgrown n hn
    exact ⟨m, hn.of_grown hm⟩

theorem upkept_read (h : Upkept s)
    (hentry : s.state.entries[id]? = some entry ∨ s.stored[id]? = some entry) :
    Upkept { s with known := (s.state.generation, entry) :: s.known } where
  rows :=
    { h.rows with
      known := by
        intro generation entry' hread
        rcases mem_cons.mp hread with heq | hread
        · cases heq
          exact h.rows.generation
        · exact h.rows.known generation entry' hread
      unread := by
        intro hne generation entry' hread
        rcases mem_cons.mp hread with heq | hread
        · cases heq
          exact hne.symm
        · exact h.rows.unread hne generation entry' hread }
  settled := by
    intro hsettled
    obtain ⟨n, hn⟩ := h.settled hsettled
    refine ⟨n, { hn with known := ?_ }⟩
    intro generation entry' hread hgeneration
    rcases mem_cons.mp hread with heq | hread
    · cases heq
      rcases hentry with hheld | hstored
      · obtain ⟨rfl, hnumber⟩ := hn.counted.held id entry hheld
        exact hnumber
      · obtain ⟨rfl, hnumber⟩ := hn.counted.rows id entry hstored
        exact hnumber
    · exact hn.known generation entry' hread hgeneration

theorem upkept_beginFlush (h : Upkept s) :
    Upkept
      { s with
        writer := .flushing s.captured
          (s.state.entries.filter fun _ entry => s.progress < entry.snapshot.revision) } where
  rows :=
    { h.rows with
      flushing := by
        intro captured entries heq
        cases heq
        rfl
      truncated := by
        intro canonicalTail heq
        cases heq }
  settled := by
    intro hsettled
    obtain ⟨n, hn⟩ := h.settled hsettled
    have hsub : ∀ (id : UiMessageId) (entry : UiEntry),
        (s.state.entries.filter fun _ entry => s.progress < entry.snapshot.revision)[id]? =
          some entry → s.state.entries[id]? = some entry := by
      intro id entry hentry
      rw [Std.ExtTreeMap.getElem?_filter', filter_eq_some_iff] at hentry
      exact hentry.1
    have htaken : ∀ (id : UiMessageId) (entry : UiEntry), s.state.entries[id]? = some entry →
        s.stored.contains id = true ∨
          (s.state.entries.filter fun _ entry =>
            s.progress < entry.snapshot.revision).contains id = true := by
      intro id entry hentry
      by_cases hnew : s.progress < entry.snapshot.revision
      · right
        refine @contains_of_get entry id _ ?_
        rw [Std.ExtTreeMap.getElem?_filter', filter_eq_some_iff]
        exact ⟨hentry, decide_eq_true hnew⟩
      · exact .inl (hn.counted.old id entry hentry (hn.committed ▸ Nat.le_of_not_lt hnew))
    refine ⟨n, { hn with writer := ⟨hn.progress, le_rfl, hn.counted.held.of_subset hsub,
      fun id entry hentry _ => htaken id entry hentry, ?_, ?_⟩ }⟩
    · refine ⟨n, hn.counted.sound, hn.counted.next,
        hn.counted.rows.union (hn.counted.held.of_subset hsub), fun id hid => ?_⟩
      rw [Std.ExtTreeMap.contains_union, Bool.or_eq_true]
      rcases hn.counted.covers id hid with hstored | hheld
      · exact .inl hstored
      · obtain ⟨entry, hentry⟩ := held_iff_exists.mp hheld
        exact htaken id entry hentry
    · intro htotal
      exact hn.counted.next.symm.trans (hn.empty htotal)

theorem upkept_storeFlush (h : Upkept s) {captured : UiSessionRow}
    (hwriter : s.writer = .flushing captured entries)
    (hgeneration : s.row.generation = captured.generation) :
    Upkept
      { s with
        row := captured
        stored := s.stored ∪ entries
        writer := .flushed captured.generation captured.revision } := by
  have hstate := h.rows.flushing captured entries hwriter
  obtain ⟨n, hn⟩ := h.settled (hgeneration.trans hstate)
  have hkeeps := hn.writer
  rw [hwriter] at hkeeps
  obtain ⟨hprogress, hrevision, hplaced, hheld, hlisted, hempty⟩ := hkeeps
  have hmono : ∀ id : UiMessageId, s.stored.contains id = true →
      (s.stored ∪ entries).contains id = true := by
    intro id hid
    rw [Std.ExtTreeMap.contains_union, hid, Bool.true_or]
  refine ⟨{ h.rows with
      listed := hlisted
      empty := hempty
      rowGeneration := hgeneration ▸ h.rows.rowGeneration
      unread := fun hne => absurd hstate hne
      flushing := ?_
      truncated := ?_ }, fun _ => ⟨n, ?_⟩⟩
  · intro captured entries heq
    cases heq
  · intro canonicalTail heq
    cases heq
  · exact
      { hn with
        counted :=
          { hn.counted with
            rows := hn.counted.rows.union hplaced
            covers := fun id hid => (hn.counted.covers id hid).imp_left (hmono id)
            recent := fun id entry hentry =>
              (hn.counted.recent id entry hentry).imp_right (hmono id)
            old := fun id entry hentry hle => hmono id (hn.counted.old id entry hentry hle) }
        writer := ⟨hprogress, hrevision, fun id entry hentry hle => by
          rw [Std.ExtTreeMap.contains_union, Bool.or_eq_true]
          exact hheld id entry hentry hle⟩ }

variable {revision : ℕ}

theorem get_retain {state : UiState} :
    ((state.retain revision)[id]? = some entry → state.entries[id]? = some entry) ∧
      (state.entries[id]? = some entry →
        (state.retain revision)[id]? = some entry ∨ entry.snapshot.revision ≤ revision) := by
  unfold UiState.retain
  rw [Std.ExtTreeMap.getElem?_filter', filter_eq_some_iff]
  refine ⟨And.left, fun hentry => ?_⟩
  by_cases hnew : revision < entry.snapshot.revision
  · left
    refine ⟨hentry, ?_⟩
    rw [decide_eq_true hnew, Bool.or_true, Bool.true_or, Bool.true_or]
  · exact .inr (Nat.le_of_not_lt hnew)

theorem upkept_endFlush (h : Upkept s) (hwriter : s.writer = .flushed generation revision) :
    Upkept
      { s with
        state.committedRevision := revision
        state.entries := s.state.retain revision
        progress := revision
        writer := .idle } where
  rows :=
    { h.rows with
      flushing := by
        intro captured entries heq
        cases heq
      truncated := by
        intro canonicalTail heq
        cases heq }
  settled := by
    intro hsettled
    obtain ⟨n, hn⟩ := h.settled hsettled
    have hkeeps := hn.writer
    rw [hwriter] at hkeeps
    obtain ⟨-, hrevision, hheld⟩ := hkeeps
    refine ⟨n,
      { counted :=
          { sound := hn.counted.sound
            next := hn.counted.next
            rows := hn.counted.rows
            held := hn.counted.held.of_subset fun id entry => get_retain.1
            covers := ?_
            recent := fun id entry hentry => hn.counted.recent id entry (get_retain.1 hentry)
            old := fun id entry hentry hle => hheld id entry (get_retain.1 hentry) hle }
        known := hn.known
        empty := hn.empty
        committed := rfl
        progress := hrevision
        writer := trivial }⟩
    intro id hid
    rcases hn.counted.covers id hid with hstored | hmem
    · exact .inl hstored
    · obtain ⟨entry, hentry⟩ := held_iff_exists.mp hmem
      rcases get_retain.2 hentry with hkept | hle
      · exact .inr (contains_of_get hkept)
      · exact .inl (hheld id entry hentry hle)

theorem upkept_writer (h : Upkept s) {writer : RowWriter}
    (hkeeps : ∀ n, WriterKeeps n { s with writer } writer)
    (hflushing : ∀ captured entries, writer ≠ .flushing captured entries)
    (htruncated : ∀ canonicalTail, writer ≠ .truncated canonicalTail) :
    Upkept { s with writer } where
  rows :=
    { h.rows with
      flushing := fun captured entries heq => absurd heq (hflushing captured entries)
      truncated := fun canonicalTail heq => absurd heq (htruncated canonicalTail) }
  settled := by
    intro hsettled
    obtain ⟨n, hn⟩ := h.settled hsettled
    exact ⟨n, { hn with writer := hkeeps n }⟩

theorem upkept_storeTruncation (h : Upkept s) (hnew : generation ∉ s.generations) :
    Upkept
      { s with
        stored := truncateStored s.stored canonicalTail
        row :=
          { generation
            revision
            nextPosition := nextPositionOf (truncateStored s.stored canonicalTail)
            totalMessages := (truncateStored s.stored canonicalTail).size
            failure := none }
        writer := .truncated canonicalTail
        generations := generation :: s.generations } := by
  have hne : generation ≠ s.state.generation := fun heq => hnew (heq ▸ h.rows.generation)
  refine ⟨
    { listed := h.rows.listed.of_subset fun id entry => truncateStored_subset
      empty := nextPositionOf_eq_zero
      rowGeneration := mem_cons_self
      generation := mem_cons_of_mem _ h.rows.generation
      known := fun generation entry hread =>
        mem_cons_of_mem _ (h.rows.known generation entry hread)
      unread := ?_
      flushing := ?_
      truncated := fun _ _ => hne }, fun hsettled => absurd hsettled hne⟩
  · rintro - generation' entry hread rfl
    exact hnew (h.rows.known _ entry hread)
  · intro captured entries heq
    cases heq

theorem tally_of_listed {next : ℕ} (h : Listed next s.stored) (hheld : s.state.entries = ∅)
    (hnext : s.state.nextPosition = next) (hempty : s.state.totalMessages = 0 → next = 0)
    (hcommitted : s.state.committedRevision = s.progress) (hprogress : s.progress ≤ s.state.revision)
    (hknown : ∀ generation entry, (generation, entry) ∈ s.known →
      generation ≠ s.state.generation)
    (hwriter : s.writer = .idle) : ∃ n, Tally n s := by
  obtain ⟨r, hsound, hr, hplaced, hcovers⟩ := h
  have hnone : ∀ (id : UiMessageId) (entry : UiEntry), s.state.entries[id]? ≠ some entry := by
    intro id entry hentry
    rw [hheld] at hentry
    cases hentry
  exact ⟨r,
    { counted :=
        { sound := hsound
          next := hr.trans hnext.symm
          rows := hplaced
          held := fun id entry hentry => absurd hentry (hnone id entry)
          covers := fun id hid => .inl (hcovers id hid)
          recent := fun id entry hentry => absurd hentry (hnone id entry)
          old := fun id entry hentry => absurd hentry (hnone id entry) }
      known := fun generation entry hread heq => absurd heq (hknown generation entry hread)
      empty := fun htotal => hr.trans (hempty htotal)
      committed := hcommitted
      progress := hprogress
      writer := by
        rw [hwriter]
        trivial }⟩

theorem upkept_endTruncation (h : Upkept s) (hwriter : s.writer = .truncated canonicalTail) :
    Upkept
      { s with
        state := .truncated s.stored s.row.generation canonicalTail s.row.revision
        progress := s.row.revision
        writer := .idle } where
  rows :=
    { listed := h.rows.listed
      empty := h.rows.empty
      rowGeneration := h.rows.rowGeneration
      generation := h.rows.rowGeneration
      known := h.rows.known
      unread := fun hne => absurd rfl hne
      flushing := by
        intro captured entries heq
        cases heq
      truncated := by
        intro canonicalTail heq
        cases heq }
  settled := fun _ =>
    tally_of_listed
      (h.rows.listed.of_subset fun _ _ hentry => hentry) rfl rfl nextPositionOf_eq_zero rfl le_rfl
      (h.rows.unread (h.rows.truncated canonicalTail hwriter)) rfl

theorem upkept_reopen (h : Upkept s) (canonicalTail : ℕ) :
    Upkept
      { s with
        state := .opened s.row canonicalTail
        progress := s.row.revision
        writer := .idle
        known := [] } where
  rows :=
    { listed := h.rows.listed
      empty := h.rows.empty
      rowGeneration := h.rows.rowGeneration
      generation := h.rows.rowGeneration
      known := fun _ _ hread => absurd hread not_mem_nil
      unread := fun hne => absurd rfl hne
      flushing := by
        intro captured entries heq
        cases heq
      truncated := by
        intro canonicalTail heq
        cases heq }
  settled := fun _ =>
    tally_of_listed h.rows.listed rfl rfl h.rows.empty rfl le_rfl
      (fun _ _ hread => absurd hread not_mem_nil) rfl

theorem upkept_copyPrefix (h : Upkept s) {entries : List UiEntry} (hwriter : s.writer = .idle)
    (hgeneration : s.row.generation = s.state.generation) (hempty : s.state.totalMessages = 0)
    (hpositions : (entries.map fun entry => entry.snapshot.position).Nodup) :
    Upkept
      { s with
        stored := copiedRows entries
        row :=
          { s.row with
            revision
            nextPosition := nextPositionOf (copiedRows entries)
            totalMessages := (copiedRows entries).size }
        state.revision := revision
        state.committedRevision := revision
        state.nextPosition := nextPositionOf (copiedRows entries)
        state.totalMessages := (copiedRows entries).size
        state.canonicalTail := canonicalTail
        progress := revision } := by
  obtain ⟨n, hn⟩ := h.settled hgeneration
  -- nothing was numbered
  have hnone : ∀ id, n.number id = none := by
    intro id
    by_contra hsome
    obtain ⟨position, hposition⟩ := ne_none_iff_exists'.mp hsome
    have hlt := hn.counted.sound.below id position hposition
    rw [hn.empty hempty] at hlt
    exact absurd hlt (Nat.not_lt_zero _)
  have hheld : s.state.entries = ∅ := by
    refine OrderedMap.ext fun id => ?_
    cases hentry : s.state.entries[id]? with
    | none => rfl
    | some entry =>
      have hnumber := (hn.counted.held id entry hentry).2
      rw [hnone id] at hnumber
      cases hnumber
  have hunknown : ∀ generation entry, (generation, entry) ∈ s.known →
      generation ≠ s.state.generation := by
    intro generation entry hread heq
    have hnumber := hn.known generation entry hread heq
    rw [hnone] at hnumber
    cases hnumber
  refine ⟨{ h.rows with
    listed := listed_copiedRows hpositions
    empty := nextPositionOf_eq_zero }, fun _ => ?_⟩
  exact tally_of_listed
    (listed_copiedRows hpositions) hheld rfl nextPositionOf_eq_zero rfl le_rfl hunknown hwriter

/-- **Every step** keeps the rows and the tally, if its call finds the messages that it names. -/
theorem FindingStep.upkept {call : SessionCall} {t : StoredSession}
    (hstep : FindingStep parseUuid s call t) (h : Upkept s) : Upkept t := by
  obtain ⟨hstep, hfinds⟩ := hstep
  cases hstep with
  | accept henters hok =>
    exact upkept_of_grown h (henters.generation hok) fun n hn =>
      henters.grown hok hfinds hn.counted hn.known
  | refuse henters herror =>
    have hretires := henters.refused herror hfinds
    exact upkept_of_grown h hretires.generation fun n hn => ⟨n, hretires.grown hn.counted⟩
  | read hentry => exact upkept_read h hentry
  | beginFlush hwriter hrevision => exact upkept_beginFlush h
  | storeFlush hwriter hgeneration hrevision => exact upkept_storeFlush h hwriter hgeneration
  | endFlush hwriter hgeneration => exact upkept_endFlush h hwriter
  | beginTruncation hwriter | release =>
    refine upkept_writer h (fun n => trivial) (fun _ _ heq => ?_) fun _ heq => ?_
    · cases heq
    · cases heq
  | storeTruncation hwriter hprevious hnew => exact upkept_storeTruncation h hnew
  | endTruncation hwriter => exact upkept_endTruncation h hwriter
  | copyPrefix hwriter hgeneration hempty hpositions =>
    exact upkept_copyPrefix h hwriter hgeneration hempty hpositions
  | reopen => exact upkept_reopen h _

end Steps

/-- **A whole run** keeps them. -/
theorem upkept_run {parseUuid : String → Except String String} {calls : List SessionCall}
    {s : StoredSession} (hrun : Run (FindingStep parseUuid) (.new generation) calls s) : Upkept s :=
  hrun.invariant (fun _ _ _ h hstep => hstep.upkept h) (upkept_new generation)

end Chelix.Sessions
