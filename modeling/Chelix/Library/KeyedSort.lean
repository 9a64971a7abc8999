import Mathlib.Data.List.Destutter
import Mathlib.Data.List.Sort
import Mathlib.Data.Prod.Lex

/-!
# Stable sorting by a key

A list sorted by a key keeps, inside each key, the order it had before: this is the stability
of the sort.  A list is therefore determined by its keys and by what it holds under each of
them, which is how two runs that interleave differently are shown to build the same list.
-/

namespace Chelix.Library

open List

variable {α β κ ι : Type*}

/-! ## The stable sort -/

variable {l l' : List α} {a : α} {p : α → Bool}

section SortByKey

variable [LinearOrder κ] (key : α → κ)

/-- The stable sort of a list by a key. -/
def sortByKey (l : List α) : List α :=
  l.insertionSort fun a b => key a ≤ key b

theorem perm_sortByKey (l : List α) : (sortByKey key l).Perm l :=
  perm_insertionSort _ l

@[simp] theorem mem_sortByKey {l : List α} {a : α} : a ∈ sortByKey key l ↔ a ∈ l :=
  (perm_sortByKey key l).mem_iff

theorem pairwise_sortByKey (l : List α) :
    (sortByKey key l).Pairwise fun a b => key a ≤ key b := by
  have htrans : IsTrans α fun a b => key a ≤ key b := ⟨fun _ _ _ => le_trans⟩
  have htotal : Std.Total fun a b : α => key a ≤ key b := ⟨fun a b => le_total (key a) (key b)⟩
  exact pairwise_insertionSort _ l

theorem map_eq_of_perm_of_pairwise (hperm : l.Perm l') (hl : l.Pairwise fun a b => key a ≤ key b)
    (hl' : l'.Pairwise fun a b => key a ≤ key b) : l.map key = l'.map key := by
  refine (hperm.map key).eq_of_pairwise
    (fun a b _ _ (hab : a ≤ b) (hba : b ≤ a) => le_antisymm hab hba) ?_ ?_
  · exact pairwise_map.mpr hl
  · exact pairwise_map.mpr hl'

/-- A list that is sorted already is left as it is. -/
theorem sortByKey_of_pairwise (h : l.Pairwise fun a b => key a ≤ key b) : sortByKey key l = l :=
  h.insertionSort_eq

/-- **Stability.**  A predicate whose elements share one key selects the same list before and
after the sort. -/
theorem filter_sortByKey (hp : ∀ a ∈ l, ∀ b ∈ l, p a → p b → key a = key b) :
    (sortByKey key l).filter p = l.filter p := by
  have htrans : IsTrans α fun a b => key a ≤ key b := ⟨fun _ _ _ => le_trans⟩
  have htotal : Std.Total fun a b : α => key a ≤ key b := ⟨fun a b => le_total (key a) (key b)⟩
  have hsorted : (l.filter p).Pairwise fun a b => key a ≤ key b := by
    refine pairwise_of_forall_mem_list fun a ha b hb => ?_
    rw [mem_filter] at ha hb
    exact (hp a ha.1 b hb.1 ha.2 hb.2).le
  have hsub : (l.filter p).Sublist (sortByKey key l) :=
    sublist_insertionSort hsorted filter_sublist
  have hsub' : (l.filter p).Sublist ((sortByKey key l).filter p) := by
    have h := hsub.filter p
    rwa [filter_filter, funext fun a => Bool.and_self (p a)] at h
  have hlen : (l.filter p).length = ((sortByKey key l).filter p).length :=
    ((perm_sortByKey key l).filter p).length_eq.symm
  exact (hsub'.eq_of_length hlen).symm

theorem sortByKey_map (f : β → α) (l : List β) :
    sortByKey key (l.map f) = (sortByKey (fun b => key (f b)) l).map f :=
  (map_insertionSort (fun a b : β => key (f a) ≤ key (f b)) (fun a b : α => key a ≤ key b) f l
    fun _ _ _ _ => Iff.rfl).symm

theorem key_le_of_find?_sortByKey {b : α} (h : (sortByKey key l).find? p = some a) (hb : b ∈ l)
    (hpb : p b) : key a ≤ key b := by
  obtain ⟨-, as, bs, hsplit, hbefore⟩ := find?_eq_some_iff_append.mp h
  have hmem : b ∈ as ++ a :: bs := hsplit ▸ (mem_sortByKey key).mpr hb
  rcases mem_append.mp hmem with hb | hb
  · exact absurd hpb (by simpa using hbefore b hb)
  · rcases mem_cons.mp hb with rfl | hb
    · exact le_rfl
    · have hsorted := pairwise_sortByKey key l
      rw [hsplit, pairwise_append, pairwise_cons] at hsorted
      exact hsorted.2.1.1 b hb

theorem find?_sortByKey_cons (ha : p a) (hleast : ∀ b ∈ l, p b → key a ≤ key b) :
    (sortByKey key (a :: l)).find? p = some a := by
  have hinsert : ∀ m : List α, (∀ b ∈ m, p b → key a ≤ key b) →
      (m.orderedInsert (fun a b => key a ≤ key b) a).find? p = some a := by
    intro m
    induction m with
    | nil => intro _; exact find?_cons_of_pos ha
    | cons b m ih =>
      intro hm
      by_cases hab : key a ≤ key b
      · rw [orderedInsert_cons, if_pos hab]
        exact find?_cons_of_pos ha
      · rw [orderedInsert_cons, if_neg hab]
        have hpb : ¬ p b := fun hpb => hab (hm b (mem_cons_self ..) hpb)
        rw [find?_cons_of_neg hpb]
        exact ih fun c hc => hm c (mem_cons_of_mem _ hc)
  refine hinsert _ fun b hb => hleast b ?_
  exact (mem_sortByKey key).mp hb

end SortByKey

/-! ## Equal neighbours -/

/-- A test that does not tell equal elements apart finds the same element after equal
neighbours are dropped. -/
theorem find?_destutter [DecidableEq β] {g : α → β} {p : α → Bool}
    (hp : ∀ a b, g a = g b → p a = p b) (l : List α) :
    (l.destutter fun a b => g a ≠ g b).find? p = l.find? p := by
  have hcons : ∀ (l : List α) (a : α),
      (l.destutter' (fun a b => g a ≠ g b) a).find? p = (a :: l).find? p := by
    intro l
    induction l with
    | nil => intro a; rfl
    | cons b l ih =>
      intro a
      rw [destutter'_cons]
      by_cases hab : g a = g b
      · rw [if_neg (not_not.mpr hab), ih a]
        by_cases ha : p a
        · rw [find?_cons_of_pos ha, find?_cons_of_pos ha]
        · have hb : ¬ p b := fun hb => ha ((hp a b hab).trans hb)
          rw [find?_cons_of_neg ha, find?_cons_of_neg ha, find?_cons_of_neg hb]
      · rw [if_pos hab]
        by_cases ha : p a
        · rw [find?_cons_of_pos ha, find?_cons_of_pos ha]
        · rw [find?_cons_of_neg ha, find?_cons_of_neg ha, ih b]
  cases l with
  | nil => rfl
  | cons a l => exact hcons l a

/-! ## A list from its parts -/

variable {i : ι}

section Parts

variable [DecidableEq ι] (label : α → ι)

/-- The part of a list under one label. -/
def part (i : ι) (l : List α) : List α :=
  l.filter fun a => decide (label a = i)

@[simp] theorem part_nil (i : ι) : part label i ([] : List α) = [] := rfl

@[simp] theorem part_cons_self (a : α) (l : List α) :
    part label (label a) (a :: l) = a :: part label (label a) l := by
  simp [part]

theorem part_cons_of_ne (h : label a ≠ i) (l : List α) :
    part label i (a :: l) = part label i l := by
  simp [part, h]

@[simp] theorem part_append (i : ι) (l l' : List α) :
    part label i (l ++ l') = part label i l ++ part label i l' :=
  filter_append ..

@[simp] theorem mem_part : a ∈ part label i l ↔ a ∈ l ∧ label a = i := by
  simp [part]

theorem part_eq_nil_iff : part label i l = [] ↔ ∀ a ∈ l, label a ≠ i := by
  simp [part]

theorem part_part [DecidableEq κ] (other : α → κ) (of : ι → κ)
    (hof : ∀ a, of (label a) = other a) (i : ι) (k : κ) (l : List α) :
    part label i (part other k l) = if of i = k then part label i l else [] := by
  simp only [part, filter_filter]
  by_cases hik : of i = k
  · rw [if_pos hik]
    congr 1
    funext a
    by_cases ha : label a = i
    · simp [ha, ← hof a, hik]
    · simp [ha]
  · rw [if_neg hik, filter_eq_nil_iff]
    intro a _ ha
    simp only [Bool.and_eq_true, decide_eq_true_eq] at ha
    exact hik (by rw [← ha.1, hof, ha.2])

theorem eq_of_length_le_one_of_part_eq (hl : l.length ≤ 1) (hl' : l'.length ≤ 1)
    (hpart : ∀ i, part label i l = part label i l') : l = l' := by
  have hmem : ∀ a, a ∈ l ↔ a ∈ l' := by
    intro a
    have h := congrArg (a ∈ ·) (hpart (label a))
    simpa using h
  match l, l', hl, hl' with
  | [], [], _, _ => rfl
  | [], b :: _, _, _ => exact absurd ((hmem b).mpr (mem_cons_self ..)) (not_mem_nil)
  | a :: _, [], _, _ => exact absurd ((hmem a).mp (mem_cons_self ..)) (not_mem_nil)
  | [a], [b], _, _ => rw [mem_singleton.mp ((hmem a).mp (mem_cons_self ..))]

theorem eq_of_map_eq_of_part_eq :
    ∀ {l l' : List α}, l.map label = l'.map label →
      (∀ i, part label i l = part label i l') → l = l'
  | [], [], _, _ => rfl
  | [], _ :: _, hmap, _ => by simp at hmap
  | _ :: _, [], hmap, _ => by simp at hmap
  | a :: l, b :: l', hmap, hpart => by
    simp only [map_cons, cons.injEq] at hmap
    obtain ⟨hlabel, hmap⟩ := hmap
    have hhead := hpart (label a)
    rw [part_cons_self, hlabel, part_cons_self] at hhead
    obtain ⟨rfl, htail⟩ := cons.inj hhead
    rw [eq_of_map_eq_of_part_eq hmap]
    intro i
    by_cases hi : label a = i
    · rw [← hi]
      exact htail
    · have h := hpart i
      rwa [part_cons_of_ne label hi, part_cons_of_ne label hi] at h

theorem eq_of_pairwise_of_part_eq {key : α → κ} [LinearOrder κ]
    (hl : l.Pairwise fun a b => key a ≤ key b) (hl' : l'.Pairwise fun a b => key a ≤ key b)
    (hpart : ∀ k, part key k l = part key k l') : l = l' := by
  have hcount : ∀ (m : List α) (k : κ), (m.map key).count k = (part key k m).length := by
    intro m k
    rw [count, countP_map, part, countP_eq_length_filter]
    rfl
  have hperm : (l.map key).Perm (l'.map key) := by
    rw [perm_iff_count]
    intro k
    rw [hcount, hcount, hpart]
  have hmap : l.map key = l'.map key := by
    refine hperm.eq_of_pairwise (fun a b _ _ (hab : a ≤ b) (hba : b ≤ a) => le_antisymm hab hba)
      ?_ ?_
    · exact pairwise_map.mpr hl
    · exact pairwise_map.mpr hl'
  exact eq_of_map_eq_of_part_eq key hmap hpart

end Parts

/-! ## A change of the first match -/

section ModifyFirst

/-- Changes the first element that satisfies `p`. -/
def modifyFirst (p : α → Bool) (f : α → α) : List α → List α
  | [] => []
  | a :: l => if p a then f a :: l else a :: modifyFirst p f l

variable {p : α → Bool} {f : α → α}

theorem mem_modifyFirst {b : α} (h : b ∈ modifyFirst p f l) : b ∈ l ∨ ∃ a ∈ l, f a = b := by
  induction l with
  | nil => exact Or.inl h
  | cons a l ih =>
    rw [modifyFirst] at h
    split at h
    · rcases mem_cons.mp h with rfl | hmem
      · exact Or.inr ⟨a, mem_cons_self .., rfl⟩
      · exact Or.inl (mem_cons_of_mem a hmem)
    · rcases mem_cons.mp h with rfl | hmem
      · exact Or.inl (mem_cons_self ..)
      · rcases ih hmem with hold | ⟨c, hc, rfl⟩
        · exact Or.inl (mem_cons_of_mem a hold)
        · exact Or.inr ⟨c, mem_cons_of_mem a hc, rfl⟩

theorem map_modifyFirst {g : α → β} (h : ∀ x, l.find? p = some x → g (f x) = g x) :
    (modifyFirst p f l).map g = l.map g := by
  induction l with
  | nil => rfl
  | cons a l ih =>
    rw [modifyFirst]
    by_cases ha : p a
    · rw [if_pos ha, map_cons, map_cons, h a (find?_cons_of_pos ha)]
    · rw [find?_cons_of_neg ha] at h
      rw [if_neg ha, map_cons, map_cons, ih h]

variable {label : α → ι}

theorem part_modifyFirst_of_ne [DecidableEq ι]
    (hne : ∀ x, l.find? p = some x → label x ≠ i ∧ label (f x) ≠ i) :
    part label i (modifyFirst p f l) = part label i l := by
  induction l with
  | nil => rfl
  | cons a l ih =>
    rw [modifyFirst]
    by_cases ha : p a
    · obtain ⟨hai, hfi⟩ := hne a (find?_cons_of_pos ha)
      rw [if_pos ha, part_cons_of_ne label hai, part_cons_of_ne label hfi]
    · rw [find?_cons_of_neg ha] at hne
      rw [if_neg ha]
      by_cases hai : label a = i
      · subst hai
        rw [part_cons_self, part_cons_self, ih hne]
      · rw [part_cons_of_ne label hai, part_cons_of_ne label hai, ih hne]

theorem part_modifyFirst_of_find? [DecidableEq ι] {x : α} (hkeep : label (f x) = label x)
    (hp : ∀ a, label a = label x → p a) (hx : l.find? p = some x) :
    part label (label x) (modifyFirst p f l) =
      (part label (label x) l).modifyHead f := by
  induction l with
  | nil => simp at hx
  | cons a l ih =>
    rw [modifyFirst]
    by_cases ha : p a
    · rw [find?_cons_of_pos ha] at hx
      obtain rfl := Option.some.inj hx
      have h := part_cons_self label (f a) l
      rw [hkeep] at h
      rw [if_pos ha, h, part_cons_self, modifyHead_cons]
    · rw [find?_cons_of_neg ha] at hx
      have hne : label a ≠ label x := fun h => ha (hp a h)
      rw [if_neg ha, part_cons_of_ne label hne, part_cons_of_ne label hne, ih hx]

theorem part_eq_cons_of_find? [DecidableEq ι] {x : α} (hp : ∀ a, label a = label x → p a)
    (hx : l.find? p = some x) : ∃ rest, part label (label x) l = x :: rest := by
  induction l with
  | nil => simp at hx
  | cons a l ih =>
    by_cases ha : p a
    · rw [find?_cons_of_pos ha] at hx
      obtain rfl := Option.some.inj hx
      exact ⟨_, part_cons_self label a l⟩
    · rw [find?_cons_of_neg ha] at hx
      have hne : label a ≠ label x := fun h => ha (hp a h)
      rw [part_cons_of_ne label hne]
      exact ih hx

end ModifyFirst

end Chelix.Library
