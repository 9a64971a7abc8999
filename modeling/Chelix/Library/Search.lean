import Mathlib.Data.List.Infix
import Mathlib.Data.List.Pairwise

/-!
# Occurrences of one list in another
-/

namespace Chelix.Library

open List

variable {α : Type*}

/-- A list occurs in another from a position on. -/
def OccursAt (needle text : List α) (k : ℕ) : Prop := needle <+: text.drop k

instance [DecidableEq α] (needle text : List α) (k : ℕ) : Decidable (OccursAt needle text k) :=
  inferInstanceAs (Decidable (_ <+: _))

/-- The occurrences that a scan from the left finds: each occurrence is found, or begins in one
that is. -/
structure Leftmost (needle text : List α) (ks : List ℕ) : Prop where
  occurs : ∀ k ∈ ks, OccursAt needle text k
  apart : ks.Pairwise fun k k' => k + needle.length ≤ k'
  covers : ∀ j, OccursAt needle text j → ∃ k ∈ ks, k ≤ j ∧ j < k + needle.length

/-- A list with the spans of one length at some positions replaced, from a position on. -/
def replaceSpans (text : List α) (n : ℕ) (new : List α) : ℕ → List ℕ → List α
  | previous, [] => text.drop previous
  | previous, k :: ks =>
    (text.drop previous).take (k - previous) ++ new ++ replaceSpans text n new (k + n) ks

variable {needle text : List α}

theorem exists_occursAt_iff : (∃ k, OccursAt needle text k) ↔ needle <:+: text := by
  constructor
  · rintro ⟨k, hk⟩
    exact hk.isInfix.trans (drop_suffix k text).isInfix
  · rintro ⟨front, back, rfl⟩
    refine ⟨front.length, back, ?_⟩
    rw [append_assoc, drop_left]

variable {k : ℕ}

theorem occursAt_singleton {c : α} : OccursAt [c] text k ↔ text[k]? = some c := by
  unfold OccursAt
  rw [← List.head?_drop, List.head?_eq_some_iff]
  simp [List.IsPrefix, eq_comm]

theorem occursAt_drop {j : ℕ} : OccursAt needle (text.drop k) j ↔ OccursAt needle text (k + j) := by
  unfold OccursAt
  rw [drop_drop]

namespace OccursAt

variable {needle text : List α} {k : ℕ}

theorem length_le (h : OccursAt needle text k) (hneedle : needle ≠ []) :
    k + needle.length ≤ text.length := by
  have hle := List.IsPrefix.length_le h
  have hpos := length_pos_iff.mpr hneedle
  rw [length_drop] at hle
  omega

theorem getElem? (h : OccursAt needle text k) {i : ℕ} (hi : i < needle.length) :
    text[k + i]? = needle[i]? := by
  obtain ⟨rest, hrest⟩ := h
  rw [← List.getElem?_drop, ← hrest, List.getElem?_append_left hi]

theorem of_append_cons {front back : List α} {c : α} (h : OccursAt needle (front ++ c :: back) k)
    (hc : c ∉ needle) :
    OccursAt needle front k ∨
      front.length < k ∧ OccursAt needle back (k - (front.length + 1)) := by
  rcases Nat.lt_or_ge front.length k with hlt | hle
  · refine .inr ⟨hlt, ?_⟩
    unfold OccursAt at h ⊢
    have hk : k = front.length + (k - (front.length + 1) + 1) := by omega
    rw [hk, drop_length_add_append, drop_succ_cons] at h
    exact h
  · refine .inl ?_
    rcases Nat.lt_or_ge front.length (k + needle.length) with hlt | hfits
    · have hi : front.length - k < needle.length := by omega
      have hget := h.getElem? hi
      rw [show k + (front.length - k) = front.length by omega,
        List.getElem?_append_right (le_refl _), Nat.sub_self, List.getElem?_cons_zero] at hget
      exact absurd (mem_of_getElem? hget.symm) hc
    · unfold OccursAt at h ⊢
      rw [drop_append_of_le_length hle] at h
      refine prefix_of_prefix_length_le h (prefix_append _ _) ?_
      rw [length_drop]
      omega

theorem append (h : OccursAt needle text k) (rest : List α) : OccursAt needle (text ++ rest) k := by
  unfold OccursAt at h ⊢
  rw [drop_append]
  exact h.trans (prefix_append _ _)

theorem of_append {rest : List α} (h : OccursAt needle (text ++ rest) k)
    (hfits : k + needle.length ≤ text.length) : OccursAt needle text k := by
  unfold OccursAt at h ⊢
  rw [drop_append_of_le_length (by omega)] at h
  refine prefix_of_prefix_length_le h (prefix_append _ _) ?_
  rw [length_drop]
  omega

theorem drop_eq_take {rest : List α} (h : OccursAt needle (text ++ rest) k)
    (hk : k ≤ text.length) (hover : text.length ≤ k + needle.length) :
    text.drop k = needle.take (text.length - k) := by
  unfold OccursAt at h
  rw [drop_append_of_le_length hk] at h
  have hpre : text.drop k <+: needle := by
    refine prefix_of_prefix_length_le (prefix_append _ _) h ?_
    rw [length_drop]
    omega
  rw [prefix_iff_eq_take.mp hpre, length_drop]

end OccursAt

namespace Leftmost

variable {needle text : List α} {ks : List ℕ}

theorem ne_nil_iff (h : Leftmost needle text ks) : ks ≠ [] ↔ ∃ j, OccursAt needle text j := by
  constructor
  · intro hne
    obtain ⟨k, hk⟩ := exists_mem_of_ne_nil ks hne
    exact ⟨k, h.occurs k hk⟩
  · rintro ⟨j, hj⟩
    obtain ⟨k, hk, -⟩ := h.covers j hj
    exact ne_nil_of_mem hk

/-- The scan finds more than one occurrence if and only if there are two that do not overlap. -/
theorem one_lt_length_iff (h : Leftmost needle text ks) :
    1 < ks.length ↔
      ∃ i j, OccursAt needle text i ∧ OccursAt needle text j ∧ i + needle.length ≤ j := by
  constructor
  · intro hlt
    match ks, h, hlt with
    | k :: k' :: rest, h, _ =>
      have hmem : k' ∈ k :: k' :: rest := mem_cons_of_mem _ mem_cons_self
      exact ⟨k, k', h.occurs k mem_cons_self, h.occurs k' hmem,
        (pairwise_cons.mp h.apart).1 k' mem_cons_self⟩
  · rintro ⟨i, j, hi, hj, hle⟩
    obtain ⟨k, hk, hki, hik⟩ := h.covers i hi
    obtain ⟨k', hk', hkj, hjk⟩ := h.covers j hj
    have hne : k ≠ k' := by
      rintro rfl
      omega
    match ks, hk, hk' with
    | [_], hk, hk' =>
      exact absurd ((mem_singleton.mp hk).trans (mem_singleton.mp hk').symm) hne
    | _ :: _ :: _, _, _ => simp

theorem length_le (h : Leftmost needle text ks) (hneedle : needle ≠ []) (hk : k ∈ ks) :
    k + needle.length ≤ text.length :=
  (h.occurs k hk).length_le hneedle

theorem singleton (h : Leftmost needle text [k]) {j : ℕ} (hj : OccursAt needle text j) :
    k ≤ j ∧ j < k + needle.length := by
  obtain ⟨k', hk', hle, hlt⟩ := h.covers j hj
  rw [mem_singleton.mp hk'] at hle hlt
  exact ⟨hle, hlt⟩

end Leftmost

/-! ## Replacing spans -/

theorem length_replaceSpans {n : ℕ} (new : List α) {ks : List ℕ} {previous : ℕ}
    (hprevious : previous ≤ text.length) (hks : ∀ k ∈ ks, previous ≤ k ∧ k + n ≤ text.length)
    (hapart : ks.Pairwise fun k k' => k + n ≤ k') :
    (replaceSpans text n new previous ks).length + ks.length * n =
      text.length - previous + ks.length * new.length := by
  induction ks generalizing previous with
  | nil =>
    unfold replaceSpans
    rw [length_drop]
    simp
  | cons k ks ih =>
    obtain ⟨hle, hend⟩ := hks k mem_cons_self
    obtain ⟨hfirst, hapart⟩ := pairwise_cons.mp hapart
    have hrest := ih hend
      (fun k' hk' => ⟨hfirst k' hk', (hks k' (mem_cons_of_mem _ hk')).2⟩) hapart
    unfold replaceSpans
    simp only [length_append, length_take, length_drop, length_cons,
      Nat.succ_mul]
    omega

theorem replaceSpans_singleton (text : List α) (n : ℕ) (new : List α) (k : ℕ) :
    replaceSpans text n new 0 [k] = text.take k ++ new ++ text.drop (k + n) := rfl

/-! ## The scan -/

section Scan

variable [DecidableEq α]

/-- The matches in the rest of a list, which is at position `k`; its first `skip` elements belong
to the last match. -/
def matchesFrom (needle : List α) : (skip k : ℕ) → List α → List ℕ
  | _, _, [] => []
  | skip + 1, k, _ :: text => matchesFrom needle skip (k + 1) text
  | 0, k, c :: text =>
    if needle <+: c :: text then
      k :: matchesFrom needle (needle.length - 1) (k + 1) text
    else matchesFrom needle 0 (k + 1) text

/-- The positions of the matches, from the left. -/
def matchPositions (needle text : List α) : List ℕ := matchesFrom needle 0 0 text

theorem matchesFrom_spec (hneedle : needle ≠ []) (text : List α) :
    ∀ (rest : List α) (skip k : ℕ), text.drop k = rest →
      (∀ i ∈ matchesFrom needle skip k rest, k + skip ≤ i ∧ OccursAt needle text i) ∧
      ((matchesFrom needle skip k rest).Pairwise fun i j => i + needle.length ≤ j) ∧
      ∀ j, k + skip ≤ j → OccursAt needle text j →
        ∃ i ∈ matchesFrom needle skip k rest, i ≤ j ∧ j < i + needle.length := by
  have hpos := length_pos_iff.mpr hneedle
  intro rest
  induction rest with
  | nil =>
    intro skip k hrest
    have hlen : text.length ≤ k := drop_eq_nil_iff.mp hrest
    unfold matchesFrom
    refine ⟨fun i hi => absurd hi not_mem_nil, List.Pairwise.nil, fun j hle hj => ?_⟩
    have := hj.length_le hneedle
    omega
  | cons c rest ih =>
    intro skip k hrest
    have hnext : text.drop (k + 1) = rest := by
      rw [← drop_drop, hrest, drop_succ_cons, drop_zero]
    cases skip with
    | succ skip =>
      have hk : k + 1 + skip = k + (skip + 1) := by omega
      obtain ⟨hocc, hap, hcov⟩ := ih skip (k + 1) hnext
      rw [hk] at hocc hcov
      exact ⟨hocc, hap, hcov⟩
    | zero =>
      unfold matchesFrom
      split
      · rename_i hmatch
        obtain ⟨hocc, hap, hcov⟩ := ih (needle.length - 1) (k + 1) hnext
        refine ⟨fun i hi => ?_, ?_, fun j hle hj => ?_⟩
        · rcases mem_cons.mp hi with rfl | hi
          · refine ⟨le_refl _, ?_⟩
            unfold OccursAt
            rw [hrest]
            exact hmatch
          · have := (hocc i hi).1
            exact ⟨by omega, (hocc i hi).2⟩
        · refine pairwise_cons.mpr ⟨fun i hi => ?_, hap⟩
          have := (hocc i hi).1
          omega
        · by_cases hj' : j < k + needle.length
          · exact ⟨k, mem_cons_self, by omega, hj'⟩
          · obtain ⟨i, hi, hij⟩ := hcov j (by omega) hj
            exact ⟨i, mem_cons_of_mem _ hi, hij⟩
      · rename_i hmatch
        obtain ⟨hocc, hap, hcov⟩ := ih 0 (k + 1) hnext
        refine ⟨fun i hi => ?_, hap, fun j hle hj => ?_⟩
        · have := (hocc i hi).1
          exact ⟨by omega, (hocc i hi).2⟩
        · rcases Nat.eq_or_lt_of_le hle with heq | hlt
          · rw [Nat.add_zero] at heq
            subst heq
            unfold OccursAt at hj
            rw [hrest] at hj
            exact absurd hj hmatch
          · exact hcov j (by omega) hj

/-- **The scan finds the leftmost occurrences.** -/
theorem leftmost_matchPositions (hneedle : needle ≠ []) (text : List α) :
    Leftmost needle text (matchPositions needle text) := by
  obtain ⟨hocc, hap, hcov⟩ := matchesFrom_spec hneedle text text 0 0 rfl
  exact ⟨fun k hk => (hocc k hk).2, hap, fun j hj => hcov j (Nat.zero_le _) hj⟩

/-! ## The first and the last match -/

/-- The position of the first match. -/
def find (needle text : List α) : Option ℕ := (matchPositions needle text).head?

/-- The position of the first match that begins at some position or after it. -/
def findFrom (needle text : List α) (k : ℕ) : Option ℕ :=
  (find needle (text.drop k)).map (k + ·)

/-- The position of the last match. -/
def rfind (needle text : List α) : Option ℕ := (matchPositions needle text).getLast?

theorem find_eq_none_iff (hneedle : needle ≠ []) :
    find needle text = none ↔ ∀ j, ¬OccursAt needle text j := by
  have hscan := leftmost_matchPositions hneedle text
  unfold find
  rw [List.head?_eq_none_iff, ← not_iff_not, ← ne_eq, hscan.ne_nil_iff]
  push Not
  rfl

theorem find_eq_some_iff (hneedle : needle ≠ []) :
    find needle text = some k ↔
      OccursAt needle text k ∧ ∀ j, OccursAt needle text j → k ≤ j := by
  have hscan := leftmost_matchPositions hneedle text
  have hfirst {k : ℕ} (h : find needle text = some k) :
      OccursAt needle text k ∧ ∀ j, OccursAt needle text j → k ≤ j := by
    unfold find at h
    obtain ⟨rest, hrest⟩ := List.head?_eq_some_iff.mp h
    rw [hrest] at hscan
    refine ⟨hscan.occurs k mem_cons_self, fun j hj => ?_⟩
    obtain ⟨i, hi, hij, -⟩ := hscan.covers j hj
    rcases mem_cons.mp hi with rfl | hi
    · exact hij
    · have hki := (pairwise_cons.mp hscan.apart).1 i hi
      omega
  constructor
  · exact hfirst
  · rintro ⟨hocc, hleast⟩
    cases h : find needle text with
    | none => exact absurd hocc ((find_eq_none_iff hneedle).mp h k)
    | some k' =>
      obtain ⟨hocc', hleast'⟩ := hfirst h
      rw [Nat.le_antisymm (hleast' k hocc) (hleast k' hocc')]

theorem findFrom_spec (hneedle : needle ≠ []) {i : ℕ} (h : findFrom needle text k = some i) :
    k ≤ i ∧ OccursAt needle text i ∧ ∀ j, k ≤ j → OccursAt needle text j → i ≤ j := by
  obtain ⟨offset, hfind, rfl⟩ := Option.map_eq_some_iff.mp h
  obtain ⟨hocc, hleast⟩ := (find_eq_some_iff hneedle).mp hfind
  refine ⟨Nat.le_add_right _ _, occursAt_drop.mp hocc, fun j hj hocc' => ?_⟩
  have hle := hleast (j - k) (occursAt_drop.mpr (by rwa [Nat.add_sub_cancel' hj]))
  omega

theorem not_occursAt_of_findFrom (hneedle : needle ≠ []) (h : findFrom needle text k = none) {j : ℕ}
    (hj : k ≤ j) : ¬OccursAt needle text j := by
  have hnone := (find_eq_none_iff hneedle).mp (Option.map_eq_none_iff.mp h) (j - k)
  rwa [occursAt_drop, Nat.add_sub_cancel' hj] at hnone

theorem findFrom_self (hneedle : needle ≠ []) {i : ℕ} (h : findFrom needle text k = some i) :
    findFrom needle text i = some i := by
  obtain ⟨-, hocc, -⟩ := findFrom_spec hneedle h
  have hfind : find needle (text.drop i) = some 0 :=
    (find_eq_some_iff hneedle).mpr ⟨hocc, fun j _ => Nat.zero_le j⟩
  rw [findFrom, hfind]
  rfl

theorem occursAt_rfind (hneedle : needle ≠ []) (h : rfind needle text = some k) :
    OccursAt needle text k :=
  (leftmost_matchPositions hneedle text).occurs k (mem_of_getLast? h)

theorem rfind_singleton_iff {c : α} : rfind [c] text = some k ↔
    OccursAt [c] text k ∧ ∀ j, OccursAt [c] text j → j ≤ k := by
  have hscan := leftmost_matchPositions (cons_ne_nil c []) text
  have hlast {k j : ℕ} (h : rfind [c] text = some k) (hj : OccursAt [c] text j) : j ≤ k := by
    obtain ⟨i, hi, hij, hlt⟩ := hscan.covers j hj
    rw [length_singleton] at hlt
    obtain ⟨front, hfront⟩ := List.getLast?_eq_some_iff.mp h
    have hap := hscan.apart
    rw [hfront] at hi hap
    rcases mem_append.mp hi with hi | hi
    · have hle := (pairwise_append.mp hap).2.2 i hi k (mem_singleton_self k)
      omega
    · have heq := mem_singleton.mp hi
      omega
  constructor
  · intro h
    exact ⟨occursAt_rfind (cons_ne_nil c []) h, fun j => hlast h⟩
  · rintro ⟨hocc, hgreatest⟩
    cases h : rfind [c] text with
    | none =>
      have hne := hscan.ne_nil_iff.mpr ⟨k, hocc⟩
      exact absurd (List.getLast?_eq_none_iff.mp h) hne
    | some k' =>
      rw [Nat.le_antisymm (hgreatest k' (occursAt_rfind (cons_ne_nil c []) h)) (hlast h hocc)]

end Scan

end Chelix.Library
