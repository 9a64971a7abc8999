import Mathlib.Data.List.Dedup
import Mathlib.Data.List.Sort
import Mathlib.Order.Bounds.Basic

/-!
# Lists read from the front

A list as a history: each element with those before it, the elements with their indices, and
the values in the order of their first occurrence.
-/

namespace Chelix.Library

open List

variable {α : Type*}

/-- Each element of a list together with the elements before it. -/
def withPrefixes (l : List α) : List (List α × α) :=
  l.zipIdx.map fun entry => (l.take entry.2, entry.1)

@[simp] theorem withPrefixes_nil : withPrefixes ([] : List α) = [] := rfl

@[simp] theorem withPrefixes_append_singleton (l : List α) (a : α) :
    withPrefixes (l ++ [a]) = withPrefixes l ++ [(l, a)] := by
  unfold withPrefixes
  rw [zipIdx_append, map_append]
  congr 1
  · refine map_congr_left fun entry hentry => ?_
    have hlt : entry.2 < l.length := by
      have h := snd_lt_add_of_mem_zipIdx hentry
      omega
    rw [take_append_of_le_length (Nat.le_of_lt hlt)]
  · simp

/-! ## Elements with their indices -/

theorem take_zipIdx (l : List α) (k n : ℕ) : (l.zipIdx k).take n = (l.take n).zipIdx k := by
  induction l generalizing k n with
  | nil => simp
  | cons a l ih =>
    cases n with
    | zero => rfl
    | succ n => rw [zipIdx_cons, take_succ_cons, take_succ_cons, ih]; rfl

theorem filter_zipIdx_lt (l : List α) (k n : ℕ) :
    ((l.zipIdx k).filter fun entry => entry.2 < k + n) = (l.zipIdx k).take n := by
  induction l generalizing k n with
  | nil => simp
  | cons a l ih =>
    cases n with
    | zero =>
      rw [take_zero, filter_eq_nil_iff]
      intro entry hentry
      have hle := le_snd_of_mem_zipIdx hentry
      simp only [decide_eq_true_eq]
      omega
    | succ n =>
      have hk : k + (n + 1) = k + 1 + n := by omega
      rw [zipIdx_cons, filter_cons_of_pos (by simp), take_succ_cons, hk, ih]

theorem filter_zipIdx_le (l : List α) (k n : ℕ) :
    ((l.zipIdx k).filter fun entry => k + n ≤ entry.2) = (l.zipIdx k).drop n := by
  induction l generalizing k n with
  | nil => simp
  | cons a l ih =>
    cases n with
    | zero =>
      rw [drop_zero, filter_eq_self]
      intro entry hentry
      have hle := le_snd_of_mem_zipIdx hentry
      simp only [decide_eq_true_eq]
      omega
    | succ n =>
      have hk : k + (n + 1) = k + 1 + n := by omega
      rw [zipIdx_cons, filter_cons_of_neg (by simp), drop_succ_cons, hk, ih]

theorem filter_zipIdx_range (l : List α) (start stop : ℕ) :
    (l.zipIdx.filter fun entry => start ≤ entry.2 ∧ entry.2 < stop) =
      (l.zipIdx.take stop).drop start := by
  have hlt := filter_zipIdx_lt l 0 stop
  have hle := filter_zipIdx_le (l.take stop) 0 start
  simp only [Nat.zero_add] at hlt hle
  rw [take_zipIdx, ← hle, ← take_zipIdx, ← hlt, filter_filter]
  refine filter_congr fun entry _ => ?_
  simp [Bool.decide_and]

theorem pairwise_zipIdx (l : List α) : l.zipIdx.Pairwise fun a b => a.2 < b.2 := by
  have h : (l.zipIdx.map Prod.snd).Pairwise (· < ·) := by
    rw [zipIdx_map_snd]
    exact pairwise_lt_range'
  exact pairwise_map.mp h

variable {l : List α} {p : α → Bool}

theorem getLast?_filter_zipIdx {c : ℕ} (h : IsGreatest {i | ∃ a, l[i]? = some a ∧ p a} c) :
    ∃ a, l[c]? = some a ∧ (l.zipIdx.filter fun entry => p entry.1).getLast? = some (a, c) := by
  obtain ⟨⟨a, ha, hp⟩, hupper⟩ := h
  refine ⟨a, ha, ?_⟩
  have hmem : (a, c) ∈ l.zipIdx.filter fun entry => p entry.1 :=
    mem_filter.mpr ⟨mk_mem_zipIdx_iff_getElem?.mpr ha, hp⟩
  have hsorted := (pairwise_zipIdx l).filter fun entry => p entry.1
  cases hlast : (l.zipIdx.filter fun entry => p entry.1).getLast? with
  | none =>
    rw [List.getLast?_eq_none_iff.mp hlast] at hmem
    cases hmem
  | some last =>
    obtain ⟨hmemlast, hplast⟩ := mem_filter.mp (mem_of_getLast? hlast)
    have hget := mem_zipIdx_iff_getElem?.mp hmemlast
    have hle : last.2 ≤ c := hupper ⟨last.1, hget, hplast⟩
    obtain ⟨front, hfront⟩ := List.getLast?_eq_some_iff.mp hlast
    have hge : c ≤ last.2 := by
      rw [hfront] at hmem hsorted
      rcases mem_append.mp hmem with hmem | hmem
      · exact Nat.le_of_lt ((pairwise_append.mp hsorted).2.2 _ hmem last (by simp))
      · exact Nat.le_of_eq (congrArg Prod.snd (mem_singleton.mp hmem))
    have heq : last.2 = c := Nat.le_antisymm hle hge
    rw [heq, ha] at hget
    rw [← heq, Option.some.inj hget]

variable {a : α}

section FirstMentions

variable [DecidableEq α]

/-- The values of a list in the order of their first occurrence. -/
def firstMentions (l : List α) : List α := l.reverse.dedup.reverse

@[simp] theorem firstMentions_nil : firstMentions ([] : List α) = [] := rfl

@[simp] theorem mem_firstMentions : a ∈ firstMentions l ↔ a ∈ l := by
  simp [firstMentions]

theorem nodup_firstMentions (l : List α) : (firstMentions l).Nodup :=
  nodup_reverse.mpr (nodup_dedup _)

theorem firstMentions_append_of_mem (h : a ∈ l) : firstMentions (l ++ [a]) = firstMentions l := by
  unfold firstMentions
  rw [reverse_append, reverse_singleton, singleton_append,
    dedup_cons_of_mem (mem_reverse.mpr h)]

theorem firstMentions_append_of_notMem (h : a ∉ l) :
    firstMentions (l ++ [a]) = firstMentions l ++ [a] := by
  unfold firstMentions
  rw [reverse_append, reverse_singleton, singleton_append,
    dedup_cons_of_notMem (mt mem_reverse.mp h), reverse_cons]

end FirstMentions

theorem all_congr_of_mem {q : α → Bool} (h : ∀ a ∈ l, p a = q a) : l.all p = l.all q := by
  induction l with
  | nil => rfl
  | cons a l ih =>
    rw [all_cons, all_cons, h a mem_cons_self,
      ih fun b hb => h b (mem_cons_of_mem _ hb)]

theorem any_congr_of_mem {q : α → Bool} (h : ∀ a ∈ l, p a = q a) : l.any p = l.any q := by
  rw [any_eq_not_all_not, any_eq_not_all_not]
  exact congrArg (! ·) (all_congr_of_mem fun a ha => congrArg (! ·) (h a ha))

/-! ## Elements with distinct keys -/

section Keys

variable {κ : Type*} [DecidableEq κ] {key : α → κ} {l : List α} {k : κ}

theorem find?_key_eq_some_iff (h : (l.map key).Nodup) :
    l.find? (fun a => key a = k) = some a ↔ a ∈ l ∧ key a = k := by
  have hfound : ∀ {b : α}, l.find? (fun a => key a = k) = some b → b ∈ l ∧ key b = k :=
    fun hb => ⟨mem_of_find?_eq_some hb, by simpa using List.find?_some hb⟩
  constructor
  · exact hfound
  · rintro ⟨ha, hk⟩
    cases hfind : l.find? fun a => key a = k with
    | none => exact absurd (decide_eq_true hk) (List.find?_eq_none.mp hfind a ha)
    | some b =>
      obtain ⟨hb, hkb⟩ := hfound hfind
      rw [inj_on_of_nodup_map h hb ha (hkb.trans hk.symm)]

theorem countP_of_key (h : (l.map key).Nodup) (hp : ∀ a ∈ l, p a = true → key a = k) :
    l.countP p = if (l.find? fun a => key a = k).any p then 1 else 0 := by
  induction l with
  | nil => rfl
  | cons a l ih =>
    rw [map_cons, nodup_cons] at h
    have hrest := ih h.2 fun b hb => hp b (mem_cons_of_mem _ hb)
    by_cases hkey : key a = k
    · have hnone : l.find? (fun a => key a = k) = none := by
        refine List.find?_eq_none.mpr fun b hb hkb => h.1 ?_
        rw [hkey, ← of_decide_eq_true hkb]
        exact mem_map_of_mem hb
      rw [hnone, Option.any_none, if_neg Bool.false_ne_true] at hrest
      have hfirst : (a :: l).find? (fun a => key a = k) = some a :=
        List.find?_cons_of_pos (decide_eq_true hkey)
      rw [countP_cons, hrest, hfirst, Option.any_some, Nat.zero_add]
    · have hnot : ¬p a = true := fun hpa => hkey (hp a mem_cons_self hpa)
      rw [countP_cons_of_neg hnot, hrest, List.find?_cons_of_neg (by simpa using hkey)]

theorem countP_of_two_keys {k' : κ} (hne : k ≠ k')
    (hp : ∀ a ∈ l, p a = true → key a = k ∨ key a = k') :
    l.countP p = l.countP (fun a => decide (key a = k) && p a) +
      l.countP fun a => decide (key a = k') && p a := by
  induction l with
  | nil => rfl
  | cons a l ih =>
    rw [countP_cons, countP_cons, countP_cons,
      ih fun b hb => hp b (mem_cons_of_mem _ hb)]
    cases hpa : p a with
    | false => simp
    | true =>
      rcases hp a mem_cons_self hpa with rfl | rfl
      · simp [hne]
        omega
      · simp [Ne.symm hne]
        omega

theorem find?_key_eq_none_iff : l.find? (fun a => key a = k) = none ↔ k ∉ l.map key := by
  rw [List.find?_eq_none, mem_map]
  simp

end Keys

end Chelix.Library
