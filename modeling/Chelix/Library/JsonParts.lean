import Chelix.Library.Json

/-!
# Parts of JSON values
-/

namespace Chelix.Library

open List

namespace Json

/-! ## Induction -/

theorem induct {P : Json → Prop} (hnull : P .null) (hbool : ∀ b, P (.bool b))
    (hnum : ∀ n, P (.num n)) (hstr : ∀ s, P (.str s))
    (harr : ∀ elems, (∀ v ∈ elems, P v) → P (.arr elems))
    (hobj : ∀ fields : List (String × Json), (∀ f ∈ fields, P f.2) → P (.obj fields))
    (v : Json) : P v := by
  refine @Json.rec P (fun elems => ∀ v ∈ elems, P v) (fun fields => ∀ f ∈ fields, P f.2)
    (fun f => P f.2) hnull hbool hnum hstr harr hobj ?_ ?_ ?_ ?_ ?_ v
  · exact fun v hv => absurd hv not_mem_nil
  · exact fun first rest hfirst hrest => forall_mem_cons.mpr ⟨hfirst, hrest⟩
  · exact fun f hf => absurd hf not_mem_nil
  · exact fun first rest hfirst hrest => forall_mem_cons.mpr ⟨hfirst, hrest⟩
  · exact fun _ _ hvalue => hvalue

/-! ## Numbers and strings -/

variable {elems : List Json} {fields : List (String × Json)}

section All

variable (num : JsonNumber → Bool) (str : String → Bool)

mutual

/-- Whether every number and every string of a value passes a test. -/
def all : Json → Bool
  | .num n => num n
  | .str s => str s
  | .arr elems => allList elems
  | .obj fields => allFields fields
  | _ => true

def allList : List Json → Bool
  | [] => true
  | value :: rest => all value && allList rest

def allFields : List (String × Json) → Bool
  | [] => true
  | (name, value) :: rest => str name && all value && allFields rest

end

theorem allList_iff : allList num str elems = true ↔ ∀ v ∈ elems, v.all num str = true := by
  induction elems with
  | nil => exact iff_of_true rfl fun v hv => absurd hv not_mem_nil
  | cons first rest ih =>
    rw [allList, Bool.and_eq_true, ih, forall_mem_cons]

theorem allFields_iff :
    allFields num str fields = true ↔ ∀ f ∈ fields, str f.1 = true ∧ f.2.all num str = true := by
  induction fields with
  | nil => exact iff_of_true rfl fun v hv => absurd hv not_mem_nil
  | cons first rest ih =>
    obtain ⟨name, value⟩ := first
    rw [allFields, Bool.and_eq_true, Bool.and_eq_true, ih, forall_mem_cons]

end All

/-! ## Distinct names -/

mutual

/-- Whether the fields of every object have different names. -/
def distinct : Json → Bool
  | .arr elems => distinctList elems
  | .obj fields => decide (fields.map Prod.fst).Nodup && distinctFields fields
  | _ => true

def distinctList : List Json → Bool
  | [] => true
  | value :: rest => distinct value && distinctList rest

def distinctFields : List (String × Json) → Bool
  | [] => true
  | (_, value) :: rest => distinct value && distinctFields rest

end

theorem distinct_arr : (arr elems).distinct = true ↔ ∀ v ∈ elems, v.distinct = true := by
  have hlist : distinctList elems = true ↔ ∀ v ∈ elems, v.distinct = true := by
    induction elems with
    | nil => exact iff_of_true rfl fun v hv => absurd hv not_mem_nil
    | cons first rest ih => rw [distinctList, Bool.and_eq_true, ih, forall_mem_cons]
  exact hlist

theorem distinct_obj :
    (obj fields).distinct = true ↔
      (fields.map Prod.fst).Nodup ∧ ∀ f ∈ fields, f.2.distinct = true := by
  have hfields : distinctFields fields = true ↔ ∀ f ∈ fields, f.2.distinct = true := by
    induction fields with
    | nil => exact iff_of_true rfl fun f hf => absurd hf not_mem_nil
    | cons first rest ih => rw [distinctFields, Bool.and_eq_true, ih, forall_mem_cons]
  rw [distinct, Bool.and_eq_true, decide_eq_true_eq, hfields]

/-! ## Weight -/

mutual

/-- The number of parts of a value. -/
def weight : Json → ℕ
  | .arr elems => 1 + weightList elems
  | .obj fields => 1 + weightFields fields
  | _ => 1

def weightList : List Json → ℕ
  | [] => 0
  | value :: rest => weight value + weightList rest

def weightFields : List (String × Json) → ℕ
  | [] => 0
  | (_, value) :: rest => weight value + weightFields rest

end

theorem weight_le_of_mem {value : Json} (h : value ∈ elems) : value.weight ≤ weightList elems := by
  induction elems with
  | nil => cases h
  | cons first rest ih =>
    rw [weightList]
    rcases mem_cons.mp h with rfl | hrest
    · exact Nat.le_add_right _ _
    · exact (ih hrest).trans (Nat.le_add_left _ _)

theorem weight_le_of_mem_fields {field : String × Json} (h : field ∈ fields) :
    field.2.weight ≤ weightFields fields := by
  induction fields with
  | nil => cases h
  | cons first rest ih =>
    obtain ⟨name, value⟩ := first
    rw [weightFields]
    rcases mem_cons.mp h with rfl | hrest
    · exact Nat.le_add_right _ _
    · exact (ih hrest).trans (Nat.le_add_left _ _)

theorem weightList_append (elems elems' : List Json) :
    weightList (elems ++ elems') = weightList elems + weightList elems' := by
  induction elems with
  | nil => exact (Nat.zero_add _).symm
  | cons value elems ih => rw [cons_append, weightList, weightList, ih, Nat.add_assoc]

/-! ## Equality of values -/

theorem normalizeList_eq (elems : List Json) : normalizeList elems = elems.map normalize := by
  induction elems with
  | nil => rfl
  | cons first rest ih => rw [normalizeList, ih, map_cons]

theorem normalizeFields_eq (fields : List (String × Json)) :
    normalizeFields fields = fields.map fun f => (f.1, f.2.normalize) := by
  induction fields with
  | nil => rfl
  | cons first rest ih => rw [normalizeFields, ih, map_cons]

theorem normalize_arr (elems : List Json) : (arr elems).normalize = .arr (elems.map normalize) := by
  rw [normalize, normalizeList_eq]

theorem sortByKey_map_fst {α β : Type*} (change : α → β) (fields : List (String × α)) :
    sortByKey Prod.fst (fields.map fun f => (f.1, change f.2)) =
      (sortByKey Prod.fst fields).map fun f => (f.1, change f.2) :=
  (map_insertionSort (r := fun a b : String × α => a.1 ≤ b.1)
    (s := fun a b : String × β => a.1 ≤ b.1) _ _ fun _ _ _ _ => Iff.rfl).symm

theorem normalize_obj (fields : List (String × Json)) :
    (obj fields).normalize =
      .obj ((sortByKey Prod.fst fields).map fun f => (f.1, f.2.normalize)) := by
  rw [normalize, normalizeFields_eq, sortByKey_map_fst]

end Json

end Chelix.Library
