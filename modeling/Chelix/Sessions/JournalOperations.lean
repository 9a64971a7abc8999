import Chelix.Library.Results
import Chelix.Sessions.JournalIndex

/-!
# The operations of a journal keep its index

Each operation that writes the journal of a session is taken as its committed transaction.
-/

namespace Chelix.Sessions

open Chelix.Library Chelix.Common List OrderedMap AppendLoop JournalIndex

/-- The tables of a session are indexed; without a journal they hold no rows. -/
def Indexed (fromStr : String → Except String Json) (t : SessionTables) : Prop :=
  JournalIndex fromStr t (t.journal.getD .zero)

/-! ## Statements -/

theorem toI64_ok {n m : ℕ} (h : toI64 n = .ok m) : m = n := by
  unfold toI64 at h
  split at h
  · exact (Except.ok.inj h).symm
  · cases h

theorem insertNew_ok {κ ν : Type} [LinearOrder κ] {constraint : String}
    {table table' : OrderedMap κ ν} {row : κ × ν} (h : insertNew constraint table row = .ok table') :
    table[row.1]? = none ∧ table' = table.insert row.1 row.2 := by
  unfold insertNew at h
  split at h
  · cases h
  · rename_i habsent
    rw [contains_eq_isSome, Bool.not_eq_true, Option.isSome_eq_false_iff,
      Option.isNone_iff_eq_none] at habsent
    exact ⟨habsent, (Except.ok.inj h).symm⟩

theorem get_insertOrIgnore {κ ν : Type} [LinearOrder κ] (table : OrderedMap κ ν) (k a : κ)
    (v : ν) : (insertOrIgnore table k v)[a]? = table[a]?.or (if k = a then some v else none) := by
  unfold insertOrIgnore
  rw [contains_eq_isSome]
  by_cases hk : k = a
  · subst hk
    cases hget : table[k]? with
    | none => simp
    | some w => simp [hget]
  · rw [if_neg hk, Option.or_none]
    split
    · rfl
    · exact get_insert_of_ne table hk v

theorem get_foldl_insertOrIgnore {κ ν : Type} [LinearOrder κ] (names : List κ) (v : ν)
    (table : OrderedMap κ ν) (a : κ) :
    (names.foldl (fun table name => insertOrIgnore table name v) table)[a]? =
      table[a]?.or (if a ∈ names then some v else none) := by
  induction names generalizing table with
  | nil => simp
  | cons name names ih =>
    rw [foldl_cons, ih, get_insertOrIgnore, Option.or_assoc]
    congr 1
    by_cases hname : name = a
    · simp [hname]
    · have hne : ¬a = name := fun h => hname h.symm
      simp [hname, hne]

/-! ## One new record -/

/-- The rows that the statements of one record add. -/
structure InsertsRecord (fromStr : String → Except String Json) (t t' : SessionTables) (i : ℕ)
    (record : Json) : Prop where
  absent : t.records[i]? = none
  records : t'.records = t.records.insert i { role := recordRole record, payload := record }
  toolDisclosures : ∀ (name : String) (k : ℕ), t'.toolDisclosures[name]? = some k ↔
    t.toolDisclosures[name]? = some k ∨
      (t.toolDisclosures[name]? = none ∧ Reveals fromStr name record ∧ k = i)
  assistantSegments : ∀ (j : ℕ) (segmentId : ProviderSegmentId),
    t'.assistantSegments[j]? = some segmentId ↔ t.assistantSegments[j]? = some segmentId ∨
      (j = i ∧ Carries fromStr segmentId record)
  disclosureErrors : ∀ j : ℕ, t'.disclosureErrors.contains j = true ↔
    t.disclosureErrors.contains j = true ∨ (j = i ∧ Undisclosed fromStr record)
  journal : t'.journal = t.journal
  uiSession : t'.uiSession = t.uiSession
  snapshots : t'.snapshots = t.snapshots

section Insert

variable {fromStr : String → Except String Json} {t t' : SessionTables} {i : ℕ} {record : Json}

theorem insertsRecord_of_insertRecord (h : insertRecord fromStr t i record = .ok t') :
    InsertsRecord fromStr t t' i record := by
  unfold insertRecord at h
  rw [bind_eq_ok] at h
  obtain ⟨index, hindex, h⟩ := h
  obtain rfl := toI64_ok hindex
  rw [bind_eq_ok] at h
  obtain ⟨records, hrecords, h⟩ := h
  obtain ⟨habsent, rfl⟩ := insertNew_ok hrecords
  unfold insertDisclosure at h
  cases hdisclosure : recordDisclosure fromStr record with
  | error e =>
    rw [hdisclosure] at h
    rw [bind_eq_ok] at h
    obtain ⟨disclosureErrors, herrors, h⟩ := h
    obtain ⟨-, rfl⟩ := insertNew_ok herrors
    obtain rfl := Except.ok.inj h
    have hnone : ∀ disclosure, recordDisclosure fromStr record ≠ .ok disclosure := by
      rw [hdisclosure]
      intro disclosure heq
      cases heq
    refine ⟨habsent, rfl, fun name k => ?_, fun j segmentId => ?_, fun j => ?_, rfl, rfl, rfl⟩
    · exact ⟨.inl, fun hk => hk.elim id fun ⟨_, ⟨d, hd, _⟩, _⟩ => (hnone d hd).elim⟩
    · exact ⟨.inl, fun hj => hj.elim id fun ⟨_, d, hd, _⟩ => (hnone d hd).elim⟩
    · have hundisclosed : Undisclosed fromStr record := ⟨e, hdisclosure⟩
      rw [contains_eq_isSome, get_insert, contains_eq_isSome]
      by_cases hj : index = j
      · simp [hj, hundisclosed]
      · have hne : ¬j = index := fun heq => hj heq.symm
        simp [hj, hne]
  | ok disclosure =>
    rw [hdisclosure] at h
    have hok : ∀ d, recordDisclosure fromStr record = .ok d ↔ disclosure = d := by
      intro d
      rw [hdisclosure, Except.ok.injEq]
    have hnames : ∀ (name : String) (k : ℕ),
        (disclosure.names.toList.foldl
          (fun table name => insertOrIgnore table name index) t.toolDisclosures)[name]? = some k ↔
        t.toolDisclosures[name]? = some k ∨
          (t.toolDisclosures[name]? = none ∧ Reveals fromStr name record ∧ k = index) := by
      intro name k
      have hreveals : Reveals fromStr name record ↔ name ∈ disclosure.names := by
        simp [Reveals, hok]
      simp only [get_foldl_insertOrIgnore, Std.ExtTreeSet.mem_toList, Option.or_eq_some_iff,
        hreveals]
      by_cases hname : name ∈ disclosure.names
      · simp [hname, eq_comm]
      · simp [hname]
    have herrors : ¬Undisclosed fromStr record := by
      rintro ⟨e, he⟩
      rw [hdisclosure] at he
      cases he
    have hcarries : ∀ segmentId, Carries fromStr segmentId record ↔
        disclosure.segmentId = some segmentId := by
      intro segmentId
      simp [Carries, hok]
    cases hsegment : disclosure.segmentId with
    | none =>
      simp only [hsegment] at h
      obtain rfl := Except.ok.inj h
      refine ⟨habsent, rfl, hnames, fun j segmentId => ?_, fun j => ?_, rfl, rfl, rfl⟩
      · simp [hcarries, hsegment]
      · simp [herrors]
    | some segmentId =>
      simp only [hsegment] at h
      rw [bind_eq_ok] at h
      obtain ⟨assistantSegments, hsegments, h⟩ := h
      obtain ⟨hfree, rfl⟩ := insertNew_ok hsegments
      obtain rfl := Except.ok.inj h
      refine ⟨habsent, rfl, hnames, fun j segmentId' => ?_, fun j => ?_, rfl, rfl, rfl⟩
      · rw [get_insert, hcarries, hsegment]
        by_cases hj : index = j
        · subst hj
          have hfree' : t.assistantSegments[index]? = none := hfree
          simp [hfree']
        · have hne : ¬j = index := fun heq => hj heq.symm
          simp [hj, hne]
      · simp [herrors]

theorem InsertsRecord.indicesWhere (h : InsertsRecord fromStr t t' i record) (p : Json → Prop) :
    t'.indicesWhere p = {j | j ∈ t.indicesWhere p ∨ (j = i ∧ p record)} := by
  ext j
  change (∃ row, t'.records[j]? = some row ∧ p row.payload) ↔
    (∃ row, t.records[j]? = some row ∧ p row.payload) ∨ (j = i ∧ p record)
  rw [h.records, get_insert]
  by_cases hj : i = j
  · subst hj
    simp [h.absent]
  · have hne : ¬j = i := fun heq => hj heq.symm
    simp [hj, hne]

/-- The pointers after a record. -/
def JournalPointers.push (pointers : JournalPointers) (record : Json) : JournalPointers where
  canonicalTail := pointers.canonicalTail + 1
  lastCheckpointIndex :=
    if recordRole record = "checkpoint" then some pointers.canonicalTail
    else pointers.lastCheckpointIndex
  firstUserIndex := pointers.firstUserIndex.or
    (if recordRole record = "user" then some pointers.canonicalTail else none)

theorem JournalIndex.push {pointers : JournalPointers} (h : JournalIndex fromStr t pointers)
    (hinsert : InsertsRecord fromStr t t' pointers.canonicalTail record) :
    JournalIndex fromStr t' (pointers.push record) where
  indices := by
    intro j
    rw [contains_eq_isSome, hinsert.records, get_insert]
    have hj := h.indices j
    rw [contains_eq_isSome] at hj
    change _ ↔ j < pointers.canonicalTail + 1
    by_cases heq : pointers.canonicalTail = j
    · simp [heq]
    · rw [if_neg heq, hj]
      omega
  roles := by
    intro j row hrow
    rw [hinsert.records, get_insert] at hrow
    split at hrow
    · obtain rfl := Option.some.inj hrow
      rfl
    · exact h.roles j row hrow
  lastCheckpoint := by
    rw [hinsert.indicesWhere]
    exact h.lastCheckpoint.push (fun j hj => h.lt_of_mem_indicesWhere hj) _
  firstUser := by
    rw [hinsert.indicesWhere]
    exact h.firstUser.push (fun j hj => h.lt_of_mem_indicesWhere hj) _
  toolDisclosures := by
    intro name k
    rw [hinsert.indicesWhere, hinsert.toolDisclosures]
    exact (h.toolDisclosures name).push_iff (fun j hj => h.lt_of_mem_indicesWhere hj) _ k
  assistantSegments := by
    intro j segmentId
    rw [hinsert.indicesWhere, hinsert.assistantSegments, h.assistantSegments]
    exact Iff.rfl
  disclosureErrors := by
    intro j
    rw [hinsert.indicesWhere, hinsert.disclosureErrors, h.disclosureErrors]
    exact Iff.rfl

end Insert

/-! ## Appending -/

section Append

variable {fromStr : String → Except String Json} {t t' : SessionTables} {records : List Json}

/-- The pointers that a journal would have if an append stopped after some of its records. -/
def AppendLoop.pointers (start : JournalPointers) (loop : AppendLoop) : JournalPointers where
  canonicalTail := loop.next
  lastCheckpointIndex := loop.lastCheckpoint.or start.lastCheckpointIndex
  firstUserIndex := start.firstUserIndex.or loop.firstUser

variable {loop loop' : AppendLoop}

theorem AppendLoop.pointers_step (start : JournalPointers)
    {record : Json} (h : loop.step fromStr record = .ok loop') :
    InsertsRecord fromStr loop.tables loop'.tables loop.next record ∧
      loop'.pointers start = (loop.pointers start).push record := by
  unfold step at h
  obtain ⟨-, hloop⟩ := guard_eq_ok.mp h
  obtain ⟨tables, htables, hloop⟩ := bind_eq_ok.mp hloop
  obtain rfl := Except.ok.inj hloop
  refine ⟨insertsRecord_of_insertRecord htables, ?_⟩
  unfold pointers JournalPointers.push
  by_cases hcheckpoint : recordRole record = "checkpoint"
  · simp [hcheckpoint]
  · by_cases huser : recordRole record = "user"
    · simp [huser]
    · simp [hcheckpoint, huser]

theorem AppendLoop.index_foldlM {start : JournalPointers}
    (h : records.foldlM (step fromStr) loop = .ok loop')
    (hindex : JournalIndex fromStr loop.tables (loop.pointers start)) :
    JournalIndex fromStr loop'.tables (loop'.pointers start) := by
  induction records generalizing loop with
  | nil =>
    obtain rfl := Except.ok.inj h
    exact hindex
  | cons record records ih =>
    rw [foldlM_cons] at h
    obtain ⟨next, hnext, h⟩ := bind_eq_ok.mp h
    obtain ⟨hinsert, hpointers⟩ := pointers_step start hnext
    refine ih h ?_
    rw [hpointers]
    exact hindex.push hinsert

theorem JournalIndex.congr {pointers : JournalPointers} (h : JournalIndex fromStr t pointers)
    (hrecords : t'.records = t.records) (hdisclosures : t'.toolDisclosures = t.toolDisclosures)
    (hsegments : t'.assistantSegments = t.assistantSegments)
    (herrors : t'.disclosureErrors = t.disclosureErrors) : JournalIndex fromStr t' pointers := by
  have hwhere : ∀ p, t'.indicesWhere p = t.indicesWhere p := by
    intro p
    unfold SessionTables.indicesWhere
    rw [hrecords]
  constructor
  · rw [hrecords]
    exact h.indices
  · rw [hrecords]
    exact h.roles
  · rw [hwhere]
    exact h.lastCheckpoint
  · rw [hwhere]
    exact h.firstUser
  · intro name
    rw [hwhere, hdisclosures]
    exact h.toolDisclosures name
  · intro i segmentId
    rw [hwhere, hsegments]
    exact h.assistantSegments i segmentId
  · intro i
    rw [hwhere, herrors]
    exact h.disclosureErrors i

theorem append_ok {expectedTail : ℕ} (h : append fromStr t records expectedTail = .ok t') :
    ∃ pointers loop, t.journal = some pointers ∧ pointers.canonicalTail = expectedTail ∧
      records.foldlM (step fromStr) ⟨t, expectedTail, none, none⟩ = .ok loop ∧
      t' = { loop.tables with journal := some (loop.pointers pointers) } := by
  unfold append at h
  split at h
  · cases h
  · rw [bind_eq_ok] at h
    obtain ⟨tail, htail, h⟩ := h
    obtain rfl := toI64_ok htail
    obtain ⟨hguard, hrest⟩ := guard_eq_ok.mp h
    obtain ⟨loop, hloop, hrest⟩ := bind_eq_ok.mp hrest
    obtain ⟨next, hnext, hrest⟩ := bind_eq_ok.mp hrest
    have heq := toI64_ok hnext
    subst heq
    push Not at hguard
    obtain ⟨hsome, heq⟩ := hguard
    obtain ⟨pointers, hpointers⟩ := Option.ne_none_iff_exists'.mp hsome
    rw [hpointers, Option.getD_some] at heq
    refine ⟨pointers, loop, hpointers, heq, hloop, ?_⟩
    rw [← Except.ok.inj hrest, hpointers]
    rfl

theorem Indexed.loopStart {pointers : JournalPointers} (hindexed : Indexed fromStr t)
    (hpointers : t.journal = some pointers) :
    JournalIndex fromStr t
      (AppendLoop.pointers pointers ⟨t, pointers.canonicalTail, none, none⟩) := by
  unfold Indexed at hindexed
  rw [hpointers, Option.getD_some] at hindexed
  unfold AppendLoop.pointers
  rw [Option.none_or, Option.or_none]
  exact hindexed

theorem Indexed.append {expectedTail : ℕ} (hindexed : Indexed fromStr t)
    (h : append fromStr t records expectedTail = .ok t') : Indexed fromStr t' := by
  obtain ⟨pointers, loop, hpointers, rfl, hloop, rfl⟩ := append_ok h
  exact (index_foldlM hloop (hindexed.loopStart hpointers)).congr rfl rfl rfl rfl

theorem JournalIndex.values_push {pointers : JournalPointers} {record : Json}
    (h : JournalIndex fromStr t pointers)
    (hinsert : InsertsRecord fromStr t t' pointers.canonicalTail record) :
    t'.values = t.values ++ [record] := by
  refine ext_getElem? fun i => Option.ext fun payload => ?_
  rw [(h.push hinsert).getElem?_values, hinsert.records]
  rcases Nat.lt_trichotomy i pointers.canonicalTail with hlt | rfl | hgt
  · rw [List.getElem?_append_left (by rw [h.length_values]; exact hlt), h.getElem?_values,
      get_insert, if_neg (by omega)]
  · rw [← h.length_values, List.getElem?_concat_length, get_insert, if_pos rfl]
    simp
  · have hnone : t.records[i]? = none := by
      by_contra hsome
      have hcontains : t.records.contains i = true := by
        rw [contains_eq_isSome, Option.isSome_iff_ne_none]
        exact hsome
      have hlt := (h.indices i).mp hcontains
      omega
    have hlen : (t.values ++ [record]).length ≤ i := by
      rw [length_append, h.length_values, length_singleton]
      omega
    rw [List.getElem?_eq_none hlen, get_insert, if_neg (by omega), hnone]
    simp

theorem AppendLoop.values_foldlM {start : JournalPointers}
    (h : records.foldlM (step fromStr) loop = .ok loop')
    (hindex : JournalIndex fromStr loop.tables (loop.pointers start)) :
    loop'.tables.values = loop.tables.values ++ records := by
  induction records generalizing loop with
  | nil =>
    obtain rfl := Except.ok.inj h
    exact (append_nil _).symm
  | cons record records ih =>
    rw [foldlM_cons] at h
    obtain ⟨next, hnext, h⟩ := bind_eq_ok.mp h
    obtain ⟨hinsert, hpointers⟩ := pointers_step start hnext
    have hpush : JournalIndex fromStr next.tables (next.pointers start) := by
      rw [hpointers]
      exact hindex.push hinsert
    rw [ih h hpush, hindex.values_push hinsert, append_assoc, singleton_append]

theorem Indexed.values_append {expectedTail : ℕ} (hindexed : Indexed fromStr t)
    (h : Sessions.append fromStr t records expectedTail = .ok t') :
    t'.values = t.values ++ records := by
  obtain ⟨pointers, loop, hpointers, rfl, hloop, rfl⟩ := append_ok h
  exact AppendLoop.values_foldlM hloop (hindexed.loopStart hpointers)

end Append

/-! ## Journals without records -/

theorem JournalIndex.zero {fromStr : String → Except String Json} {t : SessionTables}
    (hrecords : t.records = ∅) (hdisclosures : t.toolDisclosures = ∅)
    (hsegments : t.assistantSegments = ∅) (herrors : t.disclosureErrors = ∅) :
    JournalIndex fromStr t .zero := by
  have hwhere : ∀ p, t.indicesWhere p = ∅ := by
    intro p
    refine Set.eq_empty_of_forall_notMem ?_
    rintro i ⟨row, hrow, -⟩
    rw [hrecords] at hrow
    cases hrow
  constructor
  · intro i
    rw [hrecords]
    simp [JournalPointers.zero]
  · intro i row hrow
    rw [hrecords] at hrow
    cases hrow
  · rw [hwhere]
    exact pointsToGreatest_none_empty
  · rw [hwhere]
    exact pointsToLeast_none_empty
  · intro name
    rw [hwhere, hdisclosures]
    exact pointsToLeast_none_empty
  · intro i segmentId
    rw [hwhere, hsegments]
    simp
  · intro i
    rw [hwhere, herrors]
    simp

theorem Indexed.clearJournal {fromStr : String → Except String Json} (t : SessionTables) :
    Indexed fromStr (clearJournal t) :=
  zero rfl rfl rfl rfl

/-! ## Prefixes -/

section Prefix

variable {fromStr : String → Except String Json} {t t' : SessionTables} {b : ℕ}

/-- The rows of a table are those of another below an index. -/
structure TakesBelow (t t' : SessionTables) (b : ℕ) : Prop where
  records : ∀ (i : ℕ) (row : RecordRow), t'.records[i]? = some row ↔
    t.records[i]? = some row ∧ i < b
  toolDisclosures : ∀ (name : String) (i : ℕ), t'.toolDisclosures[name]? = some i ↔
    t.toolDisclosures[name]? = some i ∧ i < b
  assistantSegments : ∀ (i : ℕ) (segmentId : ProviderSegmentId),
    t'.assistantSegments[i]? = some segmentId ↔
      t.assistantSegments[i]? = some segmentId ∧ i < b
  disclosureErrors : ∀ (i : ℕ) (u : Unit), t'.disclosureErrors[i]? = some u ↔
    t.disclosureErrors[i]? = some u ∧ i < b

theorem get_below {ν : Type} (b : ℕ) (table : OrderedMap ℕ ν) (i : ℕ) (v : ν) :
    (below b table)[i]? = some v ↔ table[i]? = some v ∧ i < b := by
  unfold below
  rw [get_filterKeys]
  by_cases hi : i < b
  · simp [hi]
  · simp [hi]

theorem get_disclosedBelow (b : ℕ) (table : OrderedMap String ℕ) (name : String) (i : ℕ) :
    (disclosedBelow b table)[name]? = some i ↔ table[name]? = some i ∧ i < b := by
  unfold disclosedBelow
  rw [Std.ExtTreeMap.getElem?_filter', Option.filter_eq_some_iff, decide_eq_true_eq]

theorem truncateJournal_ok (h : truncateJournal t b = .ok t') :
    TakesBelow t t' b ∧ t'.journal = t.journal.map fun pointers =>
      { canonicalTail := b
        lastCheckpointIndex := maxRoleIndex t'.records "checkpoint" b
        firstUserIndex := pointers.firstUserIndex.filter fun index => index < b } := by
  unfold truncateJournal at h
  rw [bind_eq_ok] at h
  obtain ⟨boundary, hboundary, h⟩ := h
  obtain rfl := toI64_ok hboundary
  obtain rfl := Except.ok.inj h
  exact ⟨⟨get_below _ _, get_disclosedBelow _ _, get_below _ _, get_below _ _⟩, rfl⟩

end Prefix

end Chelix.Sessions
