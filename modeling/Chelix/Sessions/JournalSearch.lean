import Chelix.Sessions.JournalOperations

/-!
# Searches in a journal

A compaction looks for the record behind a message in memory: the latest assistant record that
made given tool calls, and the latest user record before an index or with a given text.
-/

namespace Chelix.Sessions

open Chelix.Library Chelix.Common

/-! ## The searches -/

/-- The identities of the tool calls of a record, as far as they are strings. -/
def recordedCallIds (payload : Json) : List String :=
  (((payload.get "tool_calls").bind Json.asArray).getD []).filterMap fun call =>
    (call.get "id").bind Json.asStr

/-- Whether the content of a record is a string that a text contains. -/
def isContainedIn (expected : String) (payload : Json) : Bool :=
  ((payload.get "content").bind Json.asStr).any fun persisted =>
    decide (persisted.toList <:+: expected.toList)

/-- Looks through the records of a role below an index, from the last one down, in pages of
64. -/
def latestOfRole (t : SessionTables) (role : String) (wanted : Json → Bool) (tail : ℕ) :
    Except Error (Option ℕ) := do
  let cursor ← toI64 tail
  let rows := t.records.toList.filter fun row => row.2.role = role
  return (searchBack Prod.fst 64 rows (fun row => wanted row.2.payload) (rows.length + 1)
    cursor).map Prod.fst

def latestMatchingAssistant (t : SessionTables) (tail : ℕ) (expectedIds : List String) :
    Except Error (Option ℕ) :=
  latestOfRole t "assistant" (fun payload => recordedCallIds payload = expectedIds) tail

def latestUserBefore (t : SessionTables) (before : ℕ) : Except Error (Option ℕ) := do
  let before ← toI64 before
  return maxRoleIndex t.records "user" before

def latestUserTextContainedBy (t : SessionTables) (tail : ℕ) (expected : String) :
    Except Error (Option ℕ) :=
  latestOfRole t "user" (isContainedIn expected) tail

def readRecordRole (t : SessionTables) (index : ℕ) : Except Error String := do
  let index ← toI64 index
  match t.records[index]? with
  | some row => return row.role
  | none => throw (.message ("message index " ++ toString index ++ " is outside session history"))

/-! ## What they find -/

/-- The latest record below an index that has a property. -/
def Latest (values : List Json) (p : Json → Prop) (bound b : ℕ) : Prop :=
  IsGreatest {i | i < bound ∧ ∃ record, values[i]? = some record ∧ p record} b

/-- An assistant record that made these calls, in this order. -/
def MadeCalls (ids : List String) (record : Json) : Prop :=
  recordRole record = "assistant" ∧ recordedCallIds record = ids

def IsUser (record : Json) : Prop := recordRole record = "user"

/-- A user record whose text is a part of this one. -/
def IsUserWithin (text : String) (record : Json) : Prop :=
  recordRole record = "user" ∧ isContainedIn text record = true

theorem Latest.lt {values : List Json} {p : Json → Prop} {bound b : ℕ}
    (h : Latest values p bound b) : b < bound := h.1.1

theorem latest_append {values : List Json} {p : Json → Prop} {bound : ℕ}
    (hbound : bound ≤ values.length) (more : List Json) (b : ℕ) :
    Latest (values ++ more) p bound b ↔ Latest values p bound b := by
  have hset : {i | i < bound ∧ ∃ record, (values ++ more)[i]? = some record ∧ p record} =
      {i | i < bound ∧ ∃ record, values[i]? = some record ∧ p record} := by
    ext i
    refine and_congr_right fun hi => ?_
    rw [List.getElem?_append_left (show i < values.length by omega)]
  rw [Latest, Latest, hset]

section Search

variable {fromStr : String → Except String Json} {t : SessionTables} {pointers : JournalPointers}

variable {tail : ℕ} {found : Option ℕ}

theorem latestOfRole_ok (h : JournalIndex fromStr t pointers) {role : String} {wanted : Json → Bool}
    (hfound : latestOfRole t role wanted tail = .ok found) (b : ℕ) :
    found = some b ↔
      Latest t.values (fun record => recordRole record = role ∧ wanted record = true) tail b := by
  obtain ⟨cursor, hcursor, hsearch⟩ := bind_eq_ok.mp hfound
  obtain rfl := toI64_ok hcursor
  have hsorted := (OrderedMap.pairwise_toList t.records).filter fun row =>
    decide (row.2.role = role)
  have hlen : (rowsBefore Prod.fst (t.records.toList.filter fun row => row.2.role = role)
      cursor).length < (t.records.toList.filter fun row => row.2.role = role).length + 1 := by
    rw [rowsBefore, List.length_reverse]
    exact Nat.lt_succ_of_le (List.length_filter_le _ _)
  have heq := Except.ok.inj hsearch
  rw [searchBack_eq Prod.fst (by omega) hsorted _ _ _ hlen] at heq
  have hrow : ∀ (i : ℕ) (row : RecordRow), (i, row) ∈ (t.records.toList.filter fun row =>
      row.2.role = role) ↔ t.records[i]? = some row ∧ recordRole row.payload = role := by
    intro i row
    rw [List.mem_filter, OrderedMap.mem_toList, decide_eq_true_eq]
    refine and_congr_right fun hget => ?_
    rw [h.roles i row hget]
  rw [← heq, Option.map_eq_some_iff]
  constructor
  · rintro ⟨⟨_, row⟩, hfind, rfl⟩
    obtain ⟨⟨hmem, hlt, hwanted⟩, hgreatest⟩ :=
      (find?_rowsBefore_eq_some Prod.fst hsorted).mp hfind
    obtain ⟨hget, hrole⟩ := (hrow _ row).mp hmem
    refine ⟨⟨hlt, row.payload, (h.getElem?_values _ _).mpr ⟨row, hget, rfl⟩, hrole, hwanted⟩, ?_⟩
    rintro i ⟨hi, record, hrecord, hirole, hiwanted⟩
    obtain ⟨other, hother, rfl⟩ := (h.getElem?_values i record).mp hrecord
    exact hgreatest (i, other) ((hrow i other).mpr ⟨hother, hirole⟩) hi hiwanted
  · rintro ⟨⟨hlt, record, hrecord, hrole, hwanted⟩, hgreatest⟩
    obtain ⟨row, hget, rfl⟩ := (h.getElem?_values b record).mp hrecord
    refine ⟨(b, row), (find?_rowsBefore_eq_some Prod.fst hsorted).mpr
      ⟨⟨(hrow b row).mpr ⟨hget, hrole⟩, hlt, hwanted⟩, ?_⟩, rfl⟩
    rintro ⟨i, other⟩ hother hi hiwanted
    obtain ⟨higet, hirole⟩ := (hrow i other).mp hother
    exact hgreatest ⟨hi, other.payload, (h.getElem?_values i _).mpr ⟨other, higet, rfl⟩, hirole,
      hiwanted⟩

theorem latestMatchingAssistant_ok (h : JournalIndex fromStr t pointers) {ids : List String}
    (hfound : latestMatchingAssistant t tail ids = .ok found) (b : ℕ) :
    found = some b ↔ Latest t.values (MadeCalls ids) tail b := by
  have hsearch := latestOfRole_ok h hfound b
  simp only [decide_eq_true_eq] at hsearch
  exact hsearch

theorem latestUserTextContainedBy_ok (h : JournalIndex fromStr t pointers) {expected : String}
    (hfound : latestUserTextContainedBy t tail expected = .ok found) (b : ℕ) :
    found = some b ↔ Latest t.values (IsUserWithin expected) tail b :=
  latestOfRole_ok h hfound b

theorem latestUserBefore_ok (h : JournalIndex fromStr t pointers) {before : ℕ}
    (hfound : latestUserBefore t before = .ok found) (b : ℕ) :
    found = some b ↔ Latest t.values IsUser before b := by
  obtain ⟨bound, hbound, hmax⟩ := bind_eq_ok.mp hfound
  obtain rfl := toI64_ok hbound
  have hset : {j | j ∈ (t.records.toList.filter fun row =>
      row.2.role = "user" ∧ row.1 < bound).map Prod.fst} =
      {i | i < bound ∧ ∃ record, t.values[i]? = some record ∧ IsUser record} := by
    ext i
    change i ∈ (t.records.toList.filter fun row => row.2.role = "user" ∧ row.1 < bound).map
      Prod.fst ↔ i < bound ∧ ∃ record, t.values[i]? = some record ∧ IsUser record
    rw [List.mem_map]
    constructor
    · rintro ⟨⟨_, row⟩, hmem, rfl⟩
      obtain ⟨hrow, hrole⟩ := List.mem_filter.mp hmem
      have hget := OrderedMap.mem_toList.mp hrow
      rw [decide_eq_true_eq, h.roles _ row hget] at hrole
      exact ⟨hrole.2, row.payload, (h.getElem?_values _ _).mpr ⟨row, hget, rfl⟩, hrole.1⟩
    · rintro ⟨hi, record, hrecord, hrole⟩
      obtain ⟨row, hget, rfl⟩ := (h.getElem?_values i record).mp hrecord
      refine ⟨(i, row), List.mem_filter.mpr ⟨OrderedMap.mem_toList.mpr hget, ?_⟩, rfl⟩
      rw [decide_eq_true_eq, h.roles i row hget]
      exact ⟨hrole, hi⟩
  have hgreatest := pointsToGreatest_max? ((t.records.toList.filter fun row =>
    row.2.role = "user" ∧ row.1 < bound).map Prod.fst)
  rw [hset] at hgreatest
  rw [← Except.ok.inj hmax]
  exact hgreatest b

end Search

end Chelix.Sessions
