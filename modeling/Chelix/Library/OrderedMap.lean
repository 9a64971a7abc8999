import Mathlib.Data.List.Sort
import Mathlib.Data.String.Basic

/-!
# Ordered maps

Finite maps with linearly ordered keys.  A map is its lookups, so two maps are compared one
key at a time; what reads a map in the order of its keys commutes with a change of its values.
-/

namespace Chelix.Library

variable {κ ν ω : Type*} [LinearOrder κ]

/-- A finite map with ordered keys. -/
abbrev OrderedMap (κ : Type*) [LinearOrder κ] (ν : Type*) := Std.ExtTreeMap κ ν compare

namespace OrderedMap

variable {m : OrderedMap κ ν}

theorem ext {m' : OrderedMap κ ν} (h : ∀ a : κ, m[a]? = m'[a]?) : m = m' :=
  Std.ExtTreeMap.ext_getElem? h

theorem contains_eq_isSome (m : OrderedMap κ ν) (a : κ) : m.contains a = m[a]?.isSome :=
  Std.ExtTreeMap.contains_eq_isSome_getElem?

theorem get_insert (m : OrderedMap κ ν) (a b : κ) (v : ν) :
    (m.insert a v)[b]? = if a = b then some v else m[b]? := by
  rw [Std.ExtTreeMap.getElem?_insert]
  simp only [compare_eq_iff_eq]

theorem get_insert_self (m : OrderedMap κ ν) (a : κ) (v : ν) : (m.insert a v)[a]? = some v := by
  rw [get_insert, if_pos rfl]

variable {a : κ}

theorem get_insert_of_ne (m : OrderedMap κ ν) {b : κ} (h : a ≠ b) (v : ν) :
    (m.insert a v)[b]? = m[b]? := by
  rw [get_insert, if_neg h]

theorem get_erase_of_ne (m : OrderedMap κ ν) {b : κ} (h : a ≠ b) : (m.erase a)[b]? = m[b]? := by
  rw [Std.ExtTreeMap.getElem?_erase, if_neg (by simpa using h)]

theorem get_map (m : OrderedMap κ ν) (f : ν → ω) (a : κ) :
    (m.map fun _ => f)[a]? = m[a]?.map f :=
  Std.ExtTreeMap.getElem?_map

theorem contains_map (m : OrderedMap κ ν) (f : ν → ω) (a : κ) :
    (m.map fun _ => f).contains a = m.contains a := by
  rw [contains_eq_isSome, contains_eq_isSome, get_map, Option.isSome_map]

/-- The entries whose key satisfies a test. -/
def filterKeys (p : κ → Bool) (m : OrderedMap κ ν) : OrderedMap κ ν :=
  m.filter fun a _ => p a

theorem get_filterKeys (p : κ → Bool) (m : OrderedMap κ ν) (a : κ) :
    (filterKeys p m)[a]? = if p a then m[a]? else none := by
  rw [filterKeys, Std.ExtTreeMap.getElem?_filter']
  cases m[a]? with
  | none => simp
  | some v => simp [Option.filter_some]

theorem isEmpty_map (m : OrderedMap κ ν) (f : ν → ω) :
    (m.map fun _ => f).isEmpty = m.isEmpty := by
  rw [← Std.ExtTreeMap.isEmpty_toList, ← Std.ExtTreeMap.isEmpty_toList,
    Std.ExtTreeMap.toList_map, List.isEmpty_map]

/-- An update of one key after another, each from what the map holds there. -/
def upsertAll (g : Option ω → ν → ω) (m : OrderedMap κ ω) (entries : List (κ × ν)) :
    OrderedMap κ ω :=
  entries.foldl (fun m entry => m.insert entry.1 (g m[entry.1]? entry.2)) m

theorem get_upsertAll (g : Option ω → ν → ω) (m : OrderedMap κ ω) (entries : OrderedMap κ ν)
    (a : κ) :
    (upsertAll g m entries.toList)[a]? =
      match entries[a]? with
      | some v => some (g m[a]? v)
      | none => m[a]? := by
  have hother : ∀ (l : List (κ × ν)) (m : OrderedMap κ ω), (∀ entry ∈ l, entry.1 ≠ a) →
      (upsertAll g m l)[a]? = m[a]? := by
    intro l
    induction l with
    | nil => intro m _; rfl
    | cons entry l ih =>
      intro m hl
      rw [upsertAll, List.foldl_cons, ← upsertAll,
        ih _ fun e he => hl e (List.mem_cons_of_mem _ he),
        get_insert_of_ne _ (hl entry (List.mem_cons_self ..))]
  have hone : ∀ (l : List (κ × ν)) (m : OrderedMap κ ω) (v : ν),
      (l.map Prod.fst).Nodup → (a, v) ∈ l → (upsertAll g m l)[a]? = some (g m[a]? v) := by
    intro l
    induction l with
    | nil => intro m v _ h; exact (List.not_mem_nil h).elim
    | cons entry l ih =>
      intro m v hnodup hmem
      rw [List.map_cons, List.nodup_cons] at hnodup
      rw [upsertAll, List.foldl_cons, ← upsertAll]
      rcases List.mem_cons.mp hmem with rfl | hmem
      · rw [hother, get_insert_self]
        intro e he hea
        exact hnodup.1 (List.mem_map.mpr ⟨e, he, hea⟩)
      · have hne : entry.1 ≠ a := by
          intro hea
          exact hnodup.1 (List.mem_map.mpr ⟨_, hmem, hea.symm⟩)
        rw [ih _ v hnodup.2 hmem, get_insert_of_ne _ hne]
  have hnodup : (entries.toList.map Prod.fst).Nodup := by
    have h := Std.ExtTreeMap.distinct_keys_toList (t := entries)
    rw [List.Nodup, List.pairwise_map]
    exact h.imp fun hne heq => hne (compare_eq_iff_eq.mpr heq)
  cases ha : entries[a]? with
  | some v => exact hone _ m v hnodup (Std.ExtTreeMap.mem_toList_iff_getElem?_eq_some.mpr ha)
  | none =>
    refine hother _ m fun entry hentry heq => ?_
    have hget := Std.ExtTreeMap.mem_toList_iff_getElem?_eq_some.mp
      (show (entry.1, entry.2) ∈ entries.toList from hentry)
    rw [heq, ha] at hget
    cases hget

/-- Takes over what is read at a key, if anything is. -/
def takeOver (read : κ → Option ν) (m : OrderedMap κ ν) (a : κ) : OrderedMap κ ν :=
  match read a with
  | some v => m.insert a v
  | none => m

theorem get_takeOver (read : κ → Option ν) (m : OrderedMap κ ν) (a b : κ) :
    (takeOver read m a)[b]? = if a = b then (read b).or m[b]? else m[b]? := by
  unfold takeOver
  by_cases hb : a = b
  · subst hb
    rw [if_pos rfl]
    cases read a with
    | none => rfl
    | some v => exact get_insert_self m a v
  · rw [if_neg hb]
    cases read a with
    | none => rfl
    | some v => exact get_insert_of_ne m hb v

theorem get_foldl_takeOver (read : κ → Option ν) (keys : List κ) (m : OrderedMap κ ν) (a : κ) :
    (keys.foldl (takeOver read) m)[a]? = if a ∈ keys then (read a).or m[a]? else m[a]? := by
  induction keys generalizing m with
  | nil => exact (if_neg List.not_mem_nil).symm
  | cons b keys ih =>
    rw [List.foldl_cons, ih, get_takeOver]
    by_cases hb : b = a
    · subst hb
      rw [if_pos rfl, if_pos (List.mem_cons_self ..)]
      split
      · cases read b <;> rfl
      · rfl
    · have hmem : a ∈ b :: keys ↔ a ∈ keys := by
        rw [List.mem_cons]
        exact or_iff_right fun h => hb h.symm
      rw [if_neg hb]
      simp only [hmem]

/-! ## The order of the entries -/

theorem pairwise_toList (m : OrderedMap κ ν) : m.toList.Pairwise fun a b => a.1 < b.1 :=
  Std.ExtTreeMap.ordered_keys_toList.imp compare_lt_iff_lt.mp

theorem mem_toList {v : ν} : (a, v) ∈ m.toList ↔ m[a]? = some v :=
  Std.ExtTreeMap.mem_toList_iff_getElem?_eq_some

theorem mem_map_fst_toList : a ∈ m.toList.map Prod.fst ↔ m[a]?.isSome = true := by
  rw [List.mem_map, Option.isSome_iff_exists]
  constructor
  · rintro ⟨⟨a, v⟩, hmem, rfl⟩
    exact ⟨v, mem_toList.mp hmem⟩
  · rintro ⟨v, hv⟩
    exact ⟨(a, v), mem_toList.mpr hv, rfl⟩

theorem nodup_map_fst_toList (m : OrderedMap κ ν) : (m.toList.map Prod.fst).Nodup :=
  List.pairwise_map.mpr ((pairwise_toList m).imp fun h => ne_of_lt h)

theorem toList_eq_zipIdx {m : OrderedMap ℕ ν} {n : ℕ} (h : ∀ i, m.contains i = true ↔ i < n) :
    m.toList = ((m.toList.map Prod.snd).zipIdx).map Prod.swap := by
  have hkeys : m.toList.map Prod.fst = List.range n := by
    refine List.Pairwise.eq_of_mem_iff (r := (· < ·)) ?_ List.pairwise_lt_range ?_
    · exact List.pairwise_map.mpr (pairwise_toList m)
    · intro i
      rw [List.mem_range, ← h, contains_eq_isSome, Option.isSome_iff_exists]
      constructor
      · intro hi
        obtain ⟨⟨_, v⟩, hmem, rfl⟩ := List.mem_map.mp hi
        exact ⟨v, mem_toList.mp hmem⟩
      · rintro ⟨v, hv⟩
        exact List.mem_map.mpr ⟨(i, v), mem_toList.mpr hv, rfl⟩
  have hlen : (m.toList.map Prod.snd).length = n := by
    rw [List.length_map, ← List.length_map (f := Prod.fst), hkeys, List.length_range]
  rw [List.zipIdx_eq_zip_range', hlen, ← List.range_eq_range', ← hkeys]
  generalize m.toList = l
  induction l with
  | nil => rfl
  | cons entry l ih =>
    simp only [List.map_cons, List.zip_cons_cons, Prod.swap_prod_mk]
    rw [← ih]

/-- The first entry, in the order of the keys, whose value satisfies a test. -/
def first? (m : OrderedMap κ ν) (p : ν → Bool) : Option (κ × ν) :=
  m.toList.find? fun entry => p entry.2

theorem first?_map (m : OrderedMap κ ν) (f : ν → ω) (p : ω → Bool) :
    first? (m.map fun _ => f) p = (first? m (p ∘ f)).map fun entry => (entry.1, f entry.2) := by
  rw [first?, Std.ExtTreeMap.toList_map, List.find?_map]
  rfl

/-- The keys, in their order, of the entries whose value satisfies a test. -/
def keysWhere (m : OrderedMap κ ν) (p : ν → Bool) : List κ :=
  (m.toList.filter fun entry => p entry.2).map Prod.fst

theorem keysWhere_map (m : OrderedMap κ ν) (f : ν → ω) (p : ω → Bool) :
    keysWhere (m.map fun _ => f) p = keysWhere m (p ∘ f) := by
  rw [keysWhere, Std.ExtTreeMap.toList_map, List.filter_map, List.map_map]
  rfl

variable {p : ν → Bool}

theorem mem_keysWhere : a ∈ keysWhere m p ↔ ∃ v, m[a]? = some v ∧ p v = true := by
  rw [keysWhere, List.mem_map]
  constructor
  · rintro ⟨⟨_, v⟩, hmem, rfl⟩
    obtain ⟨hmem, hp⟩ := List.mem_filter.mp hmem
    exact ⟨v, mem_toList.mp hmem, hp⟩
  · rintro ⟨v, hv, hp⟩
    exact ⟨(a, v), List.mem_filter.mpr ⟨mem_toList.mpr hv, hp⟩, rfl⟩

theorem first?_some {v : ν} (h : first? m p = some (a, v)) : m[a]? = some v ∧ p v = true := by
  refine ⟨mem_toList.mp (List.mem_of_find?_eq_some h), ?_⟩
  have hp := List.find?_some h
  exact hp

theorem first?_eq_none_iff :
    first? m p = none ↔ ∀ (a : κ) (v : ν), m[a]? = some v → ¬p v = true := by
  rw [first?, List.find?_eq_none]
  constructor
  · intro h a v hv
    exact h (a, v) (mem_toList.mpr hv)
  · rintro h ⟨a, v⟩ hmem
    exact h a v (mem_toList.mp hmem)

end OrderedMap

end Chelix.Library
