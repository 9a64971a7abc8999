import Mathlib.Data.Int.Order.Basic
import Mathlib.Data.List.Basic

/-!
# Reading a table page by page

A reader takes the rows after its cursor, a bounded number at a time, and moves the cursor to
the last row it took.  Over rows with increasing keys this visits every row after the first
cursor exactly once, in their order, whatever the size of a page.

A search goes the other way, from its cursor down, and stops at the first row that it looks
for.
-/

namespace Chelix.Library

open List

variable {ρ σ ε : Type*} (key : ρ → ℕ)

def rowsAfter (rows : List ρ) (cursor : ℤ) : List ρ := rows.filter fun row => cursor < key row

/-- Reads pages of `size` rows until one is not full.  Every full page has a row, so as many
pages as there are rows, and one more, are enough. -/
def readPages (size : ℕ) (rows : List ρ) (visit : σ → ρ → Except ε σ) :
    ℕ → ℤ → σ → Except ε σ
  | 0, _, s => .ok s
  | pages + 1, cursor, s =>
    let page := (rowsAfter key rows cursor).take size
    match page.getLast? with
    | none => .ok s
    | some last =>
      match page.foldlM visit s with
      | .error e => .error e
      | .ok s =>
        if page.length < size then .ok s else readPages size rows visit pages (key last) s

theorem rowsAfter_getLast {front rest : List ρ} {last : ρ}
    (hsorted : (front ++ rest).Pairwise fun a b => key a < key b)
    (hlast : front.getLast? = some last) :
    rowsAfter key (front ++ rest) (key last) = rest := by
  obtain ⟨before, rfl⟩ := List.getLast?_eq_some_iff.mp hlast
  rw [pairwise_append] at hsorted
  obtain ⟨hfront, -, hcross⟩ := hsorted
  have hnone : rowsAfter key (before ++ [last]) (key last) = [] := by
    rw [rowsAfter, filter_eq_nil_iff]
    intro row hrow
    have hle : key row ≤ key last := by
      rcases mem_append.mp hrow with hbefore | hrow
      · exact Nat.le_of_lt ((pairwise_append.mp hfront).2.2 row hbefore last (by simp))
      · exact Nat.le_of_eq (congrArg key (mem_singleton.mp hrow))
    simpa using hle
  have hall : rowsAfter key rest (key last) = rest := by
    rw [rowsAfter, filter_eq_self]
    intro row hrow
    simpa using hcross last (by simp) row hrow
  unfold rowsAfter at hnone hall ⊢
  rw [filter_append, hnone, hall, nil_append]

theorem rowsAfter_rowsAfter (rows : List ρ) {cursor cursor' : ℤ} (h : cursor ≤ cursor') :
    rowsAfter key (rowsAfter key rows cursor) cursor' = rowsAfter key rows cursor' := by
  unfold rowsAfter
  rw [filter_filter]
  refine filter_congr fun row _ => ?_
  by_cases hrow : cursor' < key row
  · have hcursor : cursor < key row := by omega
    simp [hrow, hcursor]
  · simp [hrow]

variable {size : ℕ} {rows : List ρ}

/-- **Reading in pages visits the rows after the cursor once, in their order.** -/
theorem readPages_eq (hsize : 0 < size) (hsorted : rows.Pairwise fun a b => key a < key b)
    (visit : σ → ρ → Except ε σ) (pages : ℕ) (cursor : ℤ) (s : σ)
    (hpages : (rowsAfter key rows cursor).length < pages) :
    readPages key size rows visit pages cursor s = (rowsAfter key rows cursor).foldlM visit s := by
  induction pages generalizing cursor s with
  | zero => omega
  | succ pages ih =>
    have hsplit := take_append_drop size (rowsAfter key rows cursor)
    cases hlast : ((rowsAfter key rows cursor).take size).getLast? with
    | none =>
      have hnil : rowsAfter key rows cursor = [] := by
        rcases take_eq_nil_iff.mp (List.getLast?_eq_none_iff.mp hlast) with hzero | hnil
        · omega
        · exact hnil
      simp only [readPages, hlast]
      rw [hnil]
      rfl
    | some last =>
      have hrest : rowsAfter key rows (key last) = (rowsAfter key rows cursor).drop size := by
        have hcursor : cursor ≤ key last := by
          have hmem := mem_of_mem_take (mem_of_getLast? hlast)
          have hlt : cursor < key last := by simpa using (mem_filter.mp hmem).2
          omega
        rw [← rowsAfter_rowsAfter key rows hcursor]
        nth_rewrite 1 [← hsplit]
        refine rowsAfter_getLast key ?_ hlast
        rw [hsplit]
        exact hsorted.filter _
      have hfold : (rowsAfter key rows cursor).foldlM visit s =
          ((rowsAfter key rows cursor).take size).foldlM visit s >>=
            ((rowsAfter key rows cursor).drop size).foldlM visit := by
        rw [← foldlM_append, hsplit]
      rw [hfold]
      simp only [readPages, hlast]
      cases hpage : ((rowsAfter key rows cursor).take size).foldlM visit s with
      | error e => rfl
      | ok s' =>
        simp only
        split
        · rename_i hshort
          have hdrop : (rowsAfter key rows cursor).drop size = [] := by
            rw [drop_eq_nil_iff]
            rw [length_take] at hshort
            omega
          rw [hdrop]
          rfl
        · rename_i hfull
          have hlen : (rowsAfter key rows (key last)).length < pages := by
            rw [hrest, length_drop]
            rw [length_take] at hfull
            omega
          rw [ih _ _ hlen, hrest]
          rfl

/-! ## Searching backwards -/

/-- The rows before a cursor, the last one first. -/
def rowsBefore (rows : List ρ) (cursor : ℕ) : List ρ :=
  (rows.filter fun row => key row < cursor).reverse

/-- Reads pages of `size` rows, from the cursor down, until one holds a row that is looked for
or is not full. -/
def searchBack (size : ℕ) (rows : List ρ) (wanted : ρ → Bool) : ℕ → ℕ → Option ρ
  | 0, _ => none
  | pages + 1, cursor =>
    let page := (rowsBefore key rows cursor).take size
    match page.find? wanted with
    | some row => some row
    | none =>
      match page.getLast? with
      | none => none
      | some last =>
        if page.length < size then none else searchBack size rows wanted pages (key last)

theorem rowsBefore_getLast (hsorted : rows.Pairwise fun a b => key a < key b) {cursor : ℕ}
    {last : ρ} (hlast : ((rowsBefore key rows cursor).take size).getLast? = some last) :
    rowsBefore key rows (key last) = (rowsBefore key rows cursor).drop size := by
  obtain ⟨front, hfront⟩ := List.getLast?_eq_some_iff.mp hlast
  have hbefore : rowsBefore key rows cursor =
      front ++ last :: (rowsBefore key rows cursor).drop size := by
    have hsplit := take_append_drop size (rowsBefore key rows cursor)
    rw [hfront] at hsplit
    simpa using hsplit.symm
  have hmem : last ∈ rowsBefore key rows cursor := by
    rw [hbefore]
    simp
  have hcursor : key last < cursor := by
    simpa using (mem_filter.mp (mem_reverse.mp hmem)).2
  have hdesc : (rowsBefore key rows cursor).Pairwise fun a b => key b < key a :=
    pairwise_reverse.mpr (hsorted.filter _)
  rw [hbefore, pairwise_append] at hdesc
  obtain ⟨-, hrest, hcross⟩ := hdesc
  have hfilter : rowsBefore key rows (key last) =
      (rowsBefore key rows cursor).filter fun row => key row < key last := by
    unfold rowsBefore
    rw [filter_reverse, filter_filter]
    congr 1
    refine filter_congr fun row _ => ?_
    by_cases hrow : key row < key last
    · have hlt : key row < cursor := by omega
      simp [hrow, hlt]
    · simp [hrow]
  have hnone : front.filter (fun row => decide (key row < key last)) = [] := by
    rw [filter_eq_nil_iff]
    intro row hrow
    have hlt := hcross row hrow last (by simp)
    simp only [decide_eq_true_eq]
    omega
  have hall : ((rowsBefore key rows cursor).drop size).filter
      (fun row => decide (key row < key last)) = (rowsBefore key rows cursor).drop size := by
    rw [filter_eq_self]
    intro row hrow
    simpa using (pairwise_cons.mp hrest).1 row hrow
  rw [hfilter]
  nth_rewrite 1 [hbefore]
  rw [filter_append, filter_cons_of_neg (by simp), hnone, hall, nil_append]

/-- **Searching in pages finds the first of the rows before the cursor, from the last one
down.** -/
theorem searchBack_eq (hsize : 0 < size) (hsorted : rows.Pairwise fun a b => key a < key b)
    (wanted : ρ → Bool) (pages cursor : ℕ) (hpages : (rowsBefore key rows cursor).length < pages) :
    searchBack key size rows wanted pages cursor =
      (rowsBefore key rows cursor).find? wanted := by
  induction pages generalizing cursor with
  | zero => omega
  | succ pages ih =>
    have hsplit := take_append_drop size (rowsBefore key rows cursor)
    have hfind : (rowsBefore key rows cursor).find? wanted =
        (((rowsBefore key rows cursor).take size).find? wanted).or
          (((rowsBefore key rows cursor).drop size).find? wanted) := by
      rw [← List.find?_append, hsplit]
    rw [hfind]
    simp only [searchBack]
    cases hpage : ((rowsBefore key rows cursor).take size).find? wanted with
    | some row => rfl
    | none =>
      rw [Option.none_or]
      cases hlast : ((rowsBefore key rows cursor).take size).getLast? with
      | none =>
        have hnil : rowsBefore key rows cursor = [] := by
          rcases take_eq_nil_iff.mp (List.getLast?_eq_none_iff.mp hlast) with hzero | hnil
          · omega
          · exact hnil
        simp only [hnil, drop_nil, List.find?_nil]
      | some last =>
        have hrest := rowsBefore_getLast key hsorted hlast
        simp only
        split
        · rename_i hshort
          have hdrop : (rowsBefore key rows cursor).drop size = [] := by
            rw [drop_eq_nil_iff]
            rw [length_take] at hshort
            omega
          rw [hdrop, List.find?_nil]
        · rename_i hfull
          have hlen : (rowsBefore key rows (key last)).length < pages := by
            rw [hrest, length_drop]
            rw [length_take] at hfull
            omega
          rw [ih _ hlen, hrest]

theorem find?_rowsBefore_eq_some (hsorted : rows.Pairwise fun a b => key a < key b)
    {wanted : ρ → Bool} {cursor : ℕ} {row : ρ} :
    (rowsBefore key rows cursor).find? wanted = some row ↔
      (row ∈ rows ∧ key row < cursor ∧ wanted row = true) ∧
        ∀ other ∈ rows, key other < cursor → wanted other = true → key other ≤ key row := by
  have hdesc : (rowsBefore key rows cursor).Pairwise fun a b => key b < key a :=
    pairwise_reverse.mpr (hsorted.filter _)
  have hmem : ∀ other, other ∈ rowsBefore key rows cursor ↔ other ∈ rows ∧ key other < cursor := by
    intro other
    rw [rowsBefore, mem_reverse, mem_filter, decide_eq_true_eq]
  constructor
  · intro hfind
    obtain ⟨hwanted, front, rest, hsplit, hfront⟩ := List.find?_eq_some_iff_append.mp hfind
    have hrow := (hmem row).mp (by rw [hsplit]; simp)
    refine ⟨⟨hrow.1, hrow.2, hwanted⟩, fun other hother hlt hgood => ?_⟩
    have hin := (hmem other).mpr ⟨hother, hlt⟩
    rw [hsplit] at hin hdesc
    rw [mem_append, mem_cons] at hin
    rcases hin with hin | rfl | hin
    · simpa [hgood] using hfront other hin
    · exact Nat.le_refl _
    · exact Nat.le_of_lt ((pairwise_cons.mp (pairwise_append.mp hdesc).2.1).1 other hin)
  · rintro ⟨⟨hrow, hlt, hwanted⟩, hgreatest⟩
    have hin := (hmem row).mpr ⟨hrow, hlt⟩
    obtain ⟨front, rest, hsplit⟩ := append_of_mem hin
    refine List.find?_eq_some_iff_append.mpr ⟨hwanted, front, rest, hsplit, fun other hother => ?_⟩
    have hotherIn := (hmem other).mp (by rw [hsplit]; simp [hother])
    rw [hsplit, pairwise_append] at hdesc
    have habove := hdesc.2.2 other hother row (by simp)
    by_contra hgood
    have hle := hgreatest other hotherIn.1 hotherIn.2 (by simpa using hgood)
    omega

end Chelix.Library
