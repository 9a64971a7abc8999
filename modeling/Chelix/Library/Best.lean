import Chelix.Library.KeyedSort

/-!
# The best elements of a list

`Best` says that a list has `k` elements of another one and that no element left out has a
greater key than one of them.  A queue that gives up its least element keeps the best of a stream.
-/

namespace Chelix.Library

open List

universe u

/-! ## Priority queues -/

/-- A priority queue with a greatest element for `cmp` on top.  Which one of several is not
said, and neither is the order of its elements. -/
structure MaxHeap {α : Type u} (cmp : α → α → Ordering) where
  Carrier : Type u
  empty : Carrier
  push : Carrier → α → Carrier
  peek : Carrier → Option α
  pop : Carrier → Carrier
  toList : Carrier → List α
  toList_empty : toList empty = []
  push_perm : ∀ h a, (toList (push h a)).Perm (a :: toList h)
  toList_of_peek_none : ∀ h, peek h = none → toList h = []
  peek_mem : ∀ h a, peek h = some a → a ∈ toList h
  peek_greatest : ∀ h a, peek h = some a → ∀ b ∈ toList h, cmp b a ≠ .gt
  pop_perm : ∀ h, toList h ≠ [] →
    ∃ a, (toList h).Perm (a :: toList (pop h)) ∧ ∀ b ∈ toList h, cmp b a ≠ .gt

/-- The number of elements of a queue. -/
def MaxHeap.len {α : Type u} {cmp : α → α → Ordering} (heap : MaxHeap cmp) (h : heap.Carrier) :
    ℕ :=
  (heap.toList h).length

section ListHeap

variable {α : Type u} {κ : Type*} [LinearOrder κ] (key : α → κ)

theorem sortByKey_cons_greatest {l m : List α} {a : α} (h : sortByKey key l = a :: m) :
    ∀ b ∈ l, compare (key a) (key b) ≠ .gt := by
  intro b hb hgt
  have hsorted := pairwise_sortByKey key l
  rw [h, pairwise_cons] at hsorted
  have hlt : key b < key a := compare_gt_iff_gt.mp hgt
  rcases mem_cons.mp (h ▸ (mem_sortByKey key).mpr hb) with rfl | hmem
  · exact lt_irrefl _ hlt
  · exact absurd (hsorted.1 b hmem) (not_le.mpr hlt)

/-- A list as a queue with its least key on top. -/
def listHeap : MaxHeap fun a b : α => compare (key b) (key a) where
  Carrier := List α
  empty := []
  push l a := a :: l
  peek l := (sortByKey key l).head?
  pop l := (sortByKey key l).tail
  toList l := l
  toList_empty := rfl
  push_perm _ _ := List.Perm.refl _
  toList_of_peek_none l h := by
    have hperm := perm_sortByKey key l
    rw [List.head?_eq_none_iff.mp h] at hperm
    exact hperm.nil_eq.symm
  peek_mem l a h := (mem_sortByKey key).mp (List.mem_of_mem_head? h)
  peek_greatest l a h := by
    obtain ⟨m, hm⟩ := List.head?_eq_some_iff.mp h
    exact sortByKey_cons_greatest key hm
  pop_perm l hne := by
    obtain ⟨a, m, hm⟩ : ∃ a m, sortByKey key l = a :: m := by
      refine List.exists_cons_of_ne_nil fun hnil => hne ?_
      have hperm := perm_sortByKey key l
      rw [hnil] at hperm
      exact hperm.nil_eq.symm
    refine ⟨a, ?_, sortByKey_cons_greatest key hm⟩
    rw [hm, List.tail_cons, ← hm]
    exact (perm_sortByKey key l).symm

end ListHeap

/-! ## The best elements -/

variable {α β κ : Type*} [LinearOrder κ] {key : α → κ} {k : ℕ} {kept all : List α} {a : α}

/-- The kept elements are `k` of all, or all, and none left out has a greater key. -/
structure Best (key : α → κ) (k : ℕ) (kept all : List α) : Prop where
  length_eq : kept.length = min k all.length
  exists_rest : ∃ rest, all.Perm (kept ++ rest) ∧ ∀ a ∈ kept, ∀ b ∈ rest, key b ≤ key a

namespace Best

theorem nil : Best key k [] [] :=
  ⟨(Nat.min_zero k).symm, [], List.Perm.refl _, fun _ h => absurd h not_mem_nil⟩

theorem of_perm {others : List α} (h : Best key k kept all) (hperm : others.Perm kept) :
    Best key k others all := by
  obtain ⟨rest, hall, hle⟩ := h.exists_rest
  refine ⟨hperm.length_eq.trans h.length_eq, rest, ?_, ?_⟩
  · exact hall.trans (hperm.symm.append_right rest)
  · exact fun a ha => hle a (hperm.mem_iff.mp ha)

theorem push (h : Best key k kept all) (hroom : kept.length < k) :
    Best key k (a :: kept) (all ++ [a]) := by
  obtain ⟨rest, hall, -⟩ := h.exists_rest
  have hlength := h.length_eq
  have hrest : rest = [] := by
    have hsum := hall.length_eq
    rw [length_append] at hsum
    exact length_eq_zero_iff.mp (by omega)
  subst hrest
  rw [append_nil] at hall
  refine ⟨?_, [], ?_, fun _ _ _ hb => absurd hb not_mem_nil⟩
  · rw [length_cons, length_append, length_singleton]
    omega
  · rw [append_nil]
    exact perm_append_comm.trans (hall.cons a)

theorem skip (h : Best key k kept all) (hfull : k ≤ kept.length)
    (hle : ∀ b ∈ kept, key a ≤ key b) : Best key k kept (all ++ [a]) := by
  obtain ⟨rest, hall, hrest⟩ := h.exists_rest
  have hlength := h.length_eq
  refine ⟨?_, rest ++ [a], ?_, ?_⟩
  · rw [length_append]
    omega
  · rw [← append_assoc]
    exact hall.append_right [a]
  · intro b hb c hc
    rcases mem_append.mp hc with hc | hc
    · exact hrest b hb c hc
    · rw [mem_singleton.mp hc]
      exact hle b hb

theorem replace {low : α} {others : List α} (h : Best key k kept all) (hfull : k ≤ kept.length)
    (hperm : kept.Perm (low :: others)) (hlow : ∀ b ∈ kept, key low ≤ key b)
    (hlt : key low < key a) : Best key k (a :: others) (all ++ [a]) := by
  obtain ⟨rest, hall, hrest⟩ := h.exists_rest
  have hlength := h.length_eq
  have hkept := hperm.length_eq
  rw [length_cons] at hkept
  have hmem : ∀ b ∈ others, b ∈ kept := fun b hb => hperm.mem_iff.mpr (mem_cons_of_mem _ hb)
  refine ⟨?_, low :: rest, ?_, ?_⟩
  · rw [length_cons, length_append]
    omega
  · have hswap : (a :: all).Perm (a :: (low :: others ++ rest)) :=
      (hall.trans (hperm.append_right rest)).cons a
    exact (perm_append_comm.trans hswap).trans (perm_middle.symm.cons a)
  · intro b hb c hc
    rcases mem_cons.mp hc with rfl | hc
    · rcases mem_cons.mp hb with rfl | hb
      · exact hlt.le
      · exact hlow b (hmem b hb)
    · rcases mem_cons.mp hb with rfl | hb
      · have hmin := hrest low (hperm.mem_iff.mpr mem_cons_self) c hc
        exact hmin.trans hlt.le
      · exact hrest b (hmem b hb) c hc

theorem map {f : α → β} {key' : β → κ} (h : Best key k kept all)
    (hkey : ∀ a ∈ all, key' (f a) = key a) : Best key' k (kept.map f) (all.map f) := by
  obtain ⟨rest, hall, hrest⟩ := h.exists_rest
  refine ⟨by rw [length_map, length_map, h.length_eq], rest.map f, ?_, ?_⟩
  · rw [← map_append]
    exact hall.map f
  · intro b hb c hc
    obtain ⟨a, ha, rfl⟩ := mem_map.mp hb
    obtain ⟨left, hleft, rfl⟩ := mem_map.mp hc
    rw [hkey a (hall.mem_iff.mpr (mem_append_left _ ha)),
      hkey left (hall.mem_iff.mpr (mem_append_right _ hleft))]
    exact hrest a ha left hleft

theorem subperm (h : Best key k kept all) : kept.Subperm all := by
  obtain ⟨rest, hall, -⟩ := h.exists_rest
  exact (sublist_append_left kept rest).subperm.trans hall.symm.subperm

theorem key_le_of_notMem (h : Best key k kept all) {b : α} (hb : b ∈ all) (hnot : b ∉ kept)
    (ha : a ∈ kept) : key b ≤ key a := by
  obtain ⟨rest, hall, hrest⟩ := h.exists_rest
  rcases mem_append.mp (hall.mem_iff.mp hb) with hb | hb
  · exact absurd hb hnot
  · exact hrest a ha b hb

/-- **The sorted keys of the best elements are the first keys of all, from the greatest on.** -/
theorem map_key_eq (h : Best key k kept all)
    (hsorted : kept.Pairwise fun a b => key b ≤ key a) :
    kept.map key =
      ((sortByKey (fun a => OrderDual.toDual (key a)) all).take (min k all.length)).map key := by
  obtain ⟨rest, hall, hrest⟩ := h.exists_rest
  have hdual : ∀ l : List α, (sortByKey (fun a => OrderDual.toDual (key a)) l).Pairwise
      fun a b => key b ≤ key a := fun l =>
    pairwise_sortByKey (fun a => OrderDual.toDual (key a)) l
  have hboth : (kept ++ sortByKey (fun a => OrderDual.toDual (key a)) rest).Pairwise
      fun a b => key b ≤ key a := by
    refine pairwise_append.mpr ⟨hsorted, hdual rest, fun a ha b hb => ?_⟩
    exact hrest a ha b ((mem_sortByKey _).mp hb)
  have hperm : (kept ++ sortByKey (fun a => OrderDual.toDual (key a)) rest).Perm
      (sortByKey (fun a => OrderDual.toDual (key a)) all) :=
    (((perm_sortByKey _ rest).append_left kept).trans hall.symm).trans (perm_sortByKey _ all).symm
  have hkeys : (kept ++ sortByKey (fun a => OrderDual.toDual (key a)) rest).map key =
      (sortByKey (fun a => OrderDual.toDual (key a)) all).map key :=
    map_eq_of_perm_of_pairwise (fun a => OrderDual.toDual (key a)) hperm hboth (hdual all)
  rw [map_take, ← hkeys, map_append, ← h.length_eq, ← length_map key,
    take_left]

end Best

end Chelix.Library
