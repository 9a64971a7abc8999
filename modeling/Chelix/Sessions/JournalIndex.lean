import Chelix.Library.Extremes
import Chelix.Library.Lists
import Chelix.Sessions.Journal

/-!
# The index of a journal

Six structures are derived from the records of a journal: its pointers, the columns of the
roles, and the tables of disclosures, segments and errors.  `JournalIndex` says that each of
them is what the payloads of the records make it.
-/

namespace Chelix.Sessions

open Chelix.Library Chelix.Common OrderedMap

namespace SessionTables

/-- The indices of the records whose payload has a property. -/
def indicesWhere (t : SessionTables) (p : Json → Prop) : Set ℕ :=
  {i | ∃ row, t.records[i]? = some row ∧ p row.payload}

end SessionTables

section Index

variable (fromStr : String → Except String Json)

/-- Whether a record reveals a tool. -/
def Reveals (name : String) (record : Json) : Prop :=
  ∃ disclosure, recordDisclosure fromStr record = .ok disclosure ∧ name ∈ disclosure.names

/-- Whether the disclosure of a record yields a segment. -/
def Carries (segmentId : ProviderSegmentId) (record : Json) : Prop :=
  ∃ disclosure, recordDisclosure fromStr record = .ok disclosure ∧
    disclosure.segmentId = some segmentId

/-- Whether the disclosure of a record is unknown. -/
def Undisclosed (record : Json) : Prop := ∃ error, recordDisclosure fromStr record = .error error

/-- **The canonical journal index invariant.** -/
structure JournalIndex (t : SessionTables) (pointers : JournalPointers) : Prop where
  indices : ∀ i : ℕ, t.records.contains i = true ↔ i < pointers.canonicalTail
  roles : ∀ (i : ℕ) (row : RecordRow), t.records[i]? = some row →
    row.role = recordRole row.payload
  lastCheckpoint : PointsToGreatest pointers.lastCheckpointIndex
    (t.indicesWhere fun record => recordRole record = "checkpoint")
  firstUser : PointsToLeast pointers.firstUserIndex
    (t.indicesWhere fun record => recordRole record = "user")
  toolDisclosures : ∀ name : String, PointsToLeast t.toolDisclosures[name]?
    (t.indicesWhere (Reveals fromStr name))
  assistantSegments : ∀ (i : ℕ) (segmentId : ProviderSegmentId),
    t.assistantSegments[i]? = some segmentId ↔ i ∈ t.indicesWhere (Carries fromStr segmentId)
  disclosureErrors : ∀ i : ℕ, t.disclosureErrors.contains i = true ↔
    i ∈ t.indicesWhere (Undisclosed fromStr)

end Index

namespace JournalIndex

variable {fromStr : String → Except String Json} {t : SessionTables} {pointers : JournalPointers}

theorem toList_records (h : JournalIndex fromStr t pointers) :
    t.records.toList = t.values.zipIdx.map fun entry =>
      (entry.2, ({ role := recordRole entry.1, payload := entry.1 } : RecordRow)) := by
  have hroles : ∀ row ∈ t.records.toList.map Prod.snd, row.role = recordRole row.payload := by
    intro row hrow
    obtain ⟨⟨i, _⟩, hmem, rfl⟩ := List.mem_map.mp hrow
    exact h.roles i _ (mem_toList.mp hmem)
  have hvalues : t.values = (t.records.toList.map Prod.snd).map RecordRow.payload := by
    rw [List.map_map]
    rfl
  rw [toList_eq_zipIdx h.indices, hvalues, List.zipIdx_map (f := RecordRow.payload),
    List.map_map]
  refine List.map_congr_left fun entry hentry => ?_
  have hrole := hroles entry.1 (List.fst_mem_of_mem_zipIdx hentry)
  rw [Function.comp_apply, Prod.map_apply, id_eq, Prod.swap_prod_mk, ← hrole]

theorem getElem?_values (h : JournalIndex fromStr t pointers) (i : ℕ) (record : Json) :
    t.values[i]? = some record ↔
      ∃ row : RecordRow, t.records[i]? = some row ∧ row.payload = record := by
  rw [← List.mk_mem_zipIdx_iff_getElem?]
  constructor
  · intro hmem
    refine ⟨⟨recordRole record, record⟩, mem_toList.mp ?_, rfl⟩
    rw [h.toList_records]
    exact List.mem_map.mpr ⟨(record, i), hmem, rfl⟩
  · rintro ⟨row, hrow, rfl⟩
    have hmem := mem_toList.mpr hrow
    rw [h.toList_records] at hmem
    obtain ⟨entry, hentry, heq⟩ := List.mem_map.mp hmem
    cases heq
    exact hentry

theorem mem_indicesWhere (h : JournalIndex fromStr t pointers) (p : Json → Prop) (i : ℕ) :
    i ∈ t.indicesWhere p ↔ ∃ record, t.values[i]? = some record ∧ p record := by
  constructor
  · rintro ⟨row, hrow, hp⟩
    exact ⟨row.payload, (h.getElem?_values i _).mpr ⟨row, hrow, rfl⟩, hp⟩
  · rintro ⟨record, hget, hp⟩
    obtain ⟨row, hrow, rfl⟩ := (h.getElem?_values i record).mp hget
    exact ⟨row, hrow, hp⟩

theorem length_values (h : JournalIndex fromStr t pointers) :
    t.values.length = pointers.canonicalTail := by
  refine Nat.le_antisymm ?_ ?_
  · by_contra hlt
    push Not at hlt
    obtain ⟨row, hrow, -⟩ := (h.getElem?_values _ _).mp (List.getElem?_eq_getElem hlt)
    have hcontains : t.records.contains pointers.canonicalTail = true := by
      rw [contains_eq_isSome, hrow]
      rfl
    exact Nat.lt_irrefl _ ((h.indices _).mp hcontains)
  · by_contra hlt
    push Not at hlt
    have hcontains := (h.indices _).mpr hlt
    rw [contains_eq_isSome, Option.isSome_iff_exists] at hcontains
    obtain ⟨row, hrow⟩ := hcontains
    have hget := (h.getElem?_values _ _).mpr ⟨row, hrow, rfl⟩
    rw [List.getElem?_eq_none (Nat.le_refl _)] at hget
    cases hget

theorem lt_of_mem_indicesWhere (h : JournalIndex fromStr t pointers) {p : Json → Prop} {i : ℕ}
    (hi : i ∈ t.indicesWhere p) : i < pointers.canonicalTail := by
  obtain ⟨row, hrow, -⟩ := hi
  refine (h.indices i).mp ?_
  rw [contains_eq_isSome, hrow]
  rfl

theorem bddAbove_indicesWhere (h : JournalIndex fromStr t pointers) (p : Json → Prop) :
    BddAbove (t.indicesWhere p) :=
  ⟨pointers.canonicalTail, fun _ hi => Nat.le_of_lt (h.lt_of_mem_indicesWhere hi)⟩

theorem lastCheckpoint_eq_none_iff (h : JournalIndex fromStr t pointers) :
    pointers.lastCheckpointIndex = none ↔
      t.indicesWhere (fun record => recordRole record = "checkpoint") = ∅ :=
  h.lastCheckpoint.eq_none_iff (h.bddAbove_indicesWhere _)

end JournalIndex

end Chelix.Sessions
