import Chelix.Library.KeyedSort
import Mathlib.Data.List.Perm.Subperm

/-!
# The first elements by a key

The first `k` elements of a list by a key are those with fewer than `k` elements before them.
They can be selected from any part of the list that still has them.
-/

namespace Chelix.Library

open List

variable {α κ : Type*}

variable {k : ℕ} {part full : List α}

theorem take_eq_of_sublist (h : part.Sublist full) (hnodup : full.Nodup)
    (hall : ∀ a ∈ full.take k, a ∈ part) : part.take k = full.take k := by
  induction h generalizing k with
  | slnil => rfl
  | @cons part full a hsub ih =>
    cases k with
    | zero => rfl
    | succ k =>
      -- the head is not in the part
      have hmem := hall a (by rw [take_succ_cons]; exact mem_cons_self)
      exact absurd (hsub.subset hmem) (nodup_cons.mp hnodup).1
  | @cons_cons part full a hsub ih =>
    cases k with
    | zero => rfl
    | succ k =>
      obtain ⟨hnot, hnodup⟩ := nodup_cons.mp hnodup
      rw [take_succ_cons, take_succ_cons, ih hnodup]
      intro b hb
      have hmem := hall b (by rw [take_succ_cons]; exact mem_cons_of_mem _ hb)
      rcases mem_cons.mp hmem with rfl | hmem
      · exact absurd (mem_of_mem_take hb) hnot
      · exact hmem

variable [LinearOrder κ] (key : α → κ)

variable {l : List α}

/-- A sorted list without equal keys is strictly sorted. -/
theorem pairwise_lt_sortByKey (h : (l.map key).Nodup) :
    (sortByKey key l).Pairwise fun a b => key a < key b := by
  have hnodup : ((sortByKey key l).map key).Nodup :=
    ((perm_sortByKey key l).map key).nodup_iff.mpr h
  exact ((pairwise_sortByKey key l).and (pairwise_map.mp hnodup)).imp
    fun ⟨hle, hne⟩ => lt_of_le_of_ne hle hne

/-- An element is among the first `k` if fewer than `k` elements are before it. -/
theorem mem_take_sortByKey (h : (l.map key).Nodup) {a : α} :
    a ∈ (sortByKey key l).take k ↔
      a ∈ l ∧ (l.filter fun b => key b < key a).length < k := by
  have hsorted := pairwise_lt_sortByKey key h
  have hcount : (l.filter fun b => key b < key a).length =
      ((sortByKey key l).filter fun b => key b < key a).length :=
    (((perm_sortByKey key l).filter _).length_eq).symm
  rw [hcount, ← @mem_sortByKey _ _ _ key l a]
  generalize sortByKey key l = sorted at hsorted
  clear hcount h
  induction sorted generalizing k with
  | nil => simp
  | cons b sorted ih =>
    obtain ⟨hbefore, hsorted⟩ := pairwise_cons.mp hsorted
    cases k with
    | zero => simp
    | succ k =>
      have htail : a ∈ sorted.take k ↔
          a ∈ sorted ∧ (sorted.filter fun c => key c < key a).length < k := ih hsorted
      rw [take_succ_cons, mem_cons, mem_cons, htail, filter_cons]
      by_cases hab : a = b
      · subst hab
        have hnone : (sorted.filter fun c => decide (key c < key a)) = [] := by
          refine filter_eq_nil_iff.mpr fun c hc => ?_
          have := hbefore c hc
          simpa using this.le
        rw [if_neg (by simp), hnone]
        simp
      · constructor
        · rintro (hab' | ⟨ha, hlen⟩)
          · exact absurd hab' hab
          · refine ⟨.inr ha, ?_⟩
            rw [if_pos (by simpa using hbefore a ha), length_cons]
            omega
        · rintro ⟨ha | ha, hlen⟩
          · exact absurd ha hab
          · refine .inr ⟨ha, ?_⟩
            rw [if_pos (by simpa using hbefore a ha), length_cons] at hlen
            omega

/-- **The first elements of a list are those of any part that has them.** -/
theorem take_sortByKey_of_subset (hfull : (full.map key).Nodup)
    (hpart : part.Nodup) (hsub : part ⊆ full)
    (hall : ∀ a ∈ full, (full.filter fun b => key b < key a).length < k → a ∈ part) :
    (sortByKey key part).take k = (sortByKey key full).take k := by
  have hsubperm : (sortByKey key part).Subperm (sortByKey key full) := by
    refine subperm_of_subset ((perm_sortByKey key part).nodup_iff.mpr hpart) fun a ha => ?_
    rw [mem_sortByKey] at ha ⊢
    exact hsub ha
  have hpartkeys : (part.map key).Nodup := by
    refine List.Nodup.map_on (fun a ha b hb heq => ?_) hpart
    exact inj_on_of_nodup_map hfull (hsub ha) (hsub hb) heq
  have hnodup : (sortByKey key full).Nodup :=
    (perm_sortByKey key full).nodup_iff.mpr hfull.of_map
  refine take_eq_of_sublist ?_ hnodup fun a ha => ?_
  · have hanti : Std.Antisymm fun a b : α => key a < key b :=
      ⟨fun a b hab hba => absurd hba hab.asymm⟩
    exact sublist_of_subperm_of_pairwise hsubperm (pairwise_lt_sortByKey key hpartkeys)
      (pairwise_lt_sortByKey key hfull)
  · obtain ⟨hmem, hlen⟩ := (mem_take_sortByKey key hfull).mp ha
    exact (mem_sortByKey key).mpr (hall a hmem hlen)

theorem reverse_sortByKey (h : (l.map key).Nodup) :
    (sortByKey key l).reverse = sortByKey (fun a => OrderDual.toDual (key a)) l := by
  have hdual : (l.map fun a => OrderDual.toDual (key a)).Nodup := by
    have hmap := h.map (OrderDual.toDual (α := κ)).injective
    rwa [map_map] at hmap
  have hirrefl : Std.Irrefl fun a b : α => OrderDual.toDual (key a) < OrderDual.toDual (key b) :=
    ⟨fun a => lt_irrefl _⟩
  refine List.Pairwise.eq_of_mem_iff ?_ (pairwise_lt_sortByKey _ hdual) fun a => ?_
  · exact pairwise_reverse.mpr (pairwise_lt_sortByKey key h)
  · rw [mem_reverse, mem_sortByKey, mem_sortByKey]

theorem take_reverse_sortByKey_of_subset (hfull : (full.map key).Nodup)
    (hpart : part.Nodup) (hsub : part ⊆ full)
    (hall : ∀ a ∈ full, (full.filter fun b => key a < key b).length < k → a ∈ part) :
    (sortByKey key part).reverse.take k = (sortByKey key full).reverse.take k := by
  have hpartkeys : (part.map key).Nodup := by
    refine List.Nodup.map_on (fun a ha b hb heq => ?_) hpart
    exact inj_on_of_nodup_map hfull (hsub ha) (hsub hb) heq
  rw [reverse_sortByKey key hpartkeys, reverse_sortByKey key hfull]
  refine take_sortByKey_of_subset _ ?_ hpart hsub hall
  have hmap := hfull.map (OrderDual.toDual (α := κ)).injective
  rwa [map_map] at hmap

/-- An element is among the last `k` if fewer than `k` elements are behind it. -/
theorem mem_take_reverse_sortByKey (h : (l.map key).Nodup) {a : α} :
    a ∈ (sortByKey key l).reverse.take k ↔
      a ∈ l ∧ (l.filter fun b => key a < key b).length < k := by
  have hdual : (l.map fun a => OrderDual.toDual (key a)).Nodup := by
    have hmap := h.map (OrderDual.toDual (α := κ)).injective
    rwa [map_map] at hmap
  rw [reverse_sortByKey key h, mem_take_sortByKey _ hdual]
  rfl

/-! ## Ties -/

/-- With fewer than `k` elements before a key, the first element with this key is selected. -/
theorem find?_take_sortByKey {v : κ} (h : l.countP (key · < v) < k) :
    ((sortByKey key l).take k).find? (key · = v) = l.find? (key · = v) := by
  have hstable : (sortByKey key l).find? (key · = v) = l.find? (key · = v) := by
    rw [← List.head?_filter, ← List.head?_filter, filter_sortByKey key fun a _ b _ ha hb => ?_]
    rw [of_decide_eq_true ha, of_decide_eq_true hb]
  have hsplit := take_append_drop k (sortByKey key l)
  rw [← hstable, ← congrArg (List.find? (key · = v)) hsplit, List.find?_append]
  cases hfind : ((sortByKey key l).take k).find? (key · = v) with
  | some a => rfl
  | none =>
    rw [Option.none_or]
    cases hlate : ((sortByKey key l).drop k).find? (key · = v) with
    | none => rfl
    | some a =>
      -- an element with this key that is not selected has `k` elements before it
      have ha : key a = v := by simpa using List.find?_some hlate
      have hmem := mem_of_find?_eq_some hlate
      have hsorted := pairwise_sortByKey key l
      rw [← hsplit, pairwise_append] at hsorted
      have hall : ∀ b ∈ (sortByKey key l).take k, decide (key b < v) = true := by
        intro b hb
        have hne := List.find?_eq_none.mp hfind b hb
        exact decide_eq_true (lt_of_le_of_ne (ha ▸ hsorted.2.2 b hb a hmem) (by simpa using hne))
      have hlength : ((sortByKey key l).take k).length = k := by
        rw [length_take]
        have hdrop := length_pos_of_mem hmem
        rw [length_drop] at hdrop
        omega
      have hcount : k ≤ l.countP (key · < v) := by
        rw [← (perm_sortByKey key l).countP_eq, ← hsplit, countP_append,
          countP_eq_length.mpr hall, hlength]
        exact Nat.le_add_right k _
      omega

theorem countP_lt_le_of_getElem? (h : l.Pairwise fun a b => key a ≤ key b) {i : ℕ}
    {a : α} (ha : l[i]? = some a) : l.countP (key · < key a) ≤ i := by
  obtain ⟨hi, rfl⟩ := List.getElem?_eq_some_iff.mp ha
  have hsplit := take_append_drop i l
  have hrest : (l.drop i).countP (key · < key l[i]) = 0 := by
    refine countP_eq_zero.mpr fun b hb => ?_
    rw [drop_eq_getElem_cons hi] at hb
    rw [← hsplit, drop_eq_getElem_cons hi, pairwise_append, pairwise_cons] at h
    rw [decide_eq_true_iff, not_lt]
    rcases mem_cons.mp hb with rfl | hb
    · exact le_rfl
    · exact h.2.1.1 b hb
  calc l.countP (key · < key l[i])
      = ((l.take i) ++ (l.drop i)).countP (key · < key l[i]) := by rw [hsplit]
    _ = (l.take i).countP (key · < key l[i]) := by rw [countP_append, hrest, Nat.add_zero]
    _ ≤ (l.take i).length := countP_le_length
    _ ≤ i := length_take_le i l

/-- **A selection is the same for every order of the list exactly if no tie reaches into it**: two
elements with the same key have `k` elements before them. -/
theorem take_sortByKey_eq_iff :
    (∀ l₁ l₂ : List α, l₁.Perm l → l₂.Perm l →
      (sortByKey key l₁).take k = (sortByKey key l₂).take k) ↔
    ∀ a ∈ l, ∀ b ∈ l, key a = key b → a = b ∨ k ≤ l.countP (key · < key a) := by
  classical
  constructor
  · intro hall a ha b hb heq
    by_contra! hne
    obtain ⟨hne, hcount⟩ := hne
    have hfirst : ∀ c ∈ l, key c = key a →
        ((sortByKey key (c :: l.erase c)).take k).find? (key · = key a) = some c := by
      intro c hc hkey
      have hfind : (c :: l.erase c).find? (key · = key a) = some c :=
        List.find?_cons_of_pos (by simpa using hkey)
      rw [find?_take_sortByKey, hfind]
      rwa [← (perm_cons_erase hc).countP_eq]
    have hsame := hall _ _ (perm_cons_erase ha).symm (perm_cons_erase hb).symm
    have hfound := hfirst a ha rfl
    rw [hsame, hfirst b hb heq.symm] at hfound
    exact hne (Option.some.inj hfound).symm
  · intro htie l₁ l₂ h₁ h₂
    have hp₁ := (perm_sortByKey key l₁).trans h₁
    have hp₂ := (perm_sortByKey key l₂).trans h₂
    have hkeys := map_eq_of_perm_of_pairwise key (hp₁.trans hp₂.symm) (pairwise_sortByKey key l₁)
      (pairwise_sortByKey key l₂)
    refine ext_getElem? fun i => ?_
    by_cases hi : i < k
    · rw [List.getElem?_take_of_lt hi, List.getElem?_take_of_lt hi]
      have hkey := congrArg (·[i]?) hkeys
      simp only [List.getElem?_map] at hkey
      cases ha : (sortByKey key l₁)[i]? with
      | none =>
        rw [ha, Option.map_none, eq_comm, Option.map_eq_none_iff] at hkey
        exact hkey.symm
      | some a =>
        rw [ha, Option.map_some, eq_comm, Option.map_eq_some_iff] at hkey
        obtain ⟨b, hb, heq⟩ := hkey
        have hcount := countP_lt_le_of_getElem? key (pairwise_sortByKey key l₁) ha
        rw [hp₁.countP_eq] at hcount
        rw [hb]
        rcases htie a (hp₁.mem_iff.mp (mem_of_getElem? ha)) b
          (hp₂.mem_iff.mp (mem_of_getElem? hb)) heq.symm with rfl | hle
        · rfl
        · omega
    · rw [List.getElem?_take_eq_none (not_lt.mp hi), List.getElem?_take_eq_none (not_lt.mp hi)]

end Chelix.Library
