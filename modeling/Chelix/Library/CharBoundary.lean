import Chelix.Library.Utf8

/-!
# Boundaries between characters

The offsets at which a text can be cut, and the nearest ones around an arbitrary offset.
-/

namespace Chelix.Library

open List

variable {text : List Char}

def isCharBoundary (text : List Char) (n : ℕ) : Bool := (splitAtByte n text).isSome

/-- The last boundary at or before an offset. -/
def floorBoundary (text : List Char) : ℕ → ℕ
  | 0 => 0
  | n + 1 => if isCharBoundary text (n + 1) then n + 1 else floorBoundary text n

/-- The search upwards, at most some number of steps. -/
def ceilFrom (text : List Char) : (steps n : ℕ) → ℕ
  | 0, n => n
  | steps + 1, n => if isCharBoundary text n then n else ceilFrom text steps (n + 1)

/-- The first boundary at or after an offset; an offset past the end stays where it is. -/
def ceilBoundary (text : List Char) (n : ℕ) : ℕ := ceilFrom text (utf8Len text - n) n

/-! ## Where a text is cut -/

variable {n : ℕ}

theorem append_of_splitAtByte {front back : List Char}
    (h : splitAtByte n text = some (front, back)) : front ++ back = text ∧ utf8Len front = n := by
  induction text generalizing n front with
  | nil =>
    cases n with
    | zero =>
      cases h
      exact ⟨rfl, rfl⟩
    | succ n => cases h
  | cons c text ih =>
    cases n with
    | zero =>
      cases h
      exact ⟨rfl, rfl⟩
    | succ n =>
      unfold splitAtByte at h
      split at h
      · rename_i hfits
        obtain ⟨parts, hparts, heq⟩ := Option.map_eq_some_iff.mp h
        cases heq
        obtain ⟨happend, hlen⟩ := ih hparts
        refine ⟨congrArg (c :: ·) happend, ?_⟩
        rw [utf8Len_cons, hlen]
        omega
      · cases h

theorem isCharBoundary_iff :
    isCharBoundary text n = true ↔ ∃ front, front <+: text ∧ utf8Len front = n := by
  unfold isCharBoundary
  constructor
  · intro h
    obtain ⟨⟨front, back⟩, hcut⟩ := Option.isSome_iff_exists.mp h
    obtain ⟨happend, hlen⟩ := append_of_splitAtByte hcut
    exact ⟨front, ⟨back, happend⟩, hlen⟩
  · rintro ⟨front, ⟨back, rfl⟩, rfl⟩
    rw [splitAtByte_utf8Len]
    rfl

theorem utf8Len_le_of_prefix {front : List Char} (h : front <+: text) :
    utf8Len front ≤ utf8Len text := by
  obtain ⟨back, rfl⟩ := h
  rw [utf8Len_append]
  exact Nat.le_add_right _ _

theorem utf8Len_eq_zero (h : utf8Len text = 0) : text = [] := by
  cases text with
  | nil => rfl
  | cons c text =>
    have := c.utf8Size_pos
    rw [utf8Len_cons] at h
    omega

/-- Of two parts at the front of a text, the one with fewer bytes is at the front of the other. -/
theorem prefix_of_utf8Len_le {front front' : List Char} (h : front <+: text) (h' : front' <+: text)
    (hle : utf8Len front ≤ utf8Len front') : front <+: front' := by
  rcases prefix_or_prefix_of_prefix h h' with hpre | ⟨rest, rfl⟩
  · exact hpre
  · rw [utf8Len_append] at hle
    have hnil : rest = [] := utf8Len_eq_zero (by omega)
    exact ⟨[], by rw [hnil, append_nil, append_nil]⟩

/-- **A boundary is never more than three bytes below** an offset of the text. -/
theorem exists_cut_below (h : n ≤ utf8Len text) :
    ∃ front, front <+: text ∧ utf8Len front ≤ n ∧ n ≤ utf8Len front + 3 := by
  induction text generalizing n with
  | nil =>
    rw [utf8Len_nil] at h
    exact ⟨[], nil_prefix, Nat.zero_le _, by rw [utf8Len_nil]; omega⟩
  | cons c text ih =>
    have hpos := c.utf8Size_pos
    have hfour := c.utf8Size_le_four
    rw [utf8Len_cons] at h
    by_cases hfits : c.utf8Size ≤ n
    · obtain ⟨front, hpre, hle, hnear⟩ := @ih (n - c.utf8Size) (by omega)
      refine ⟨c :: front, cons_prefix_cons.mpr ⟨rfl, hpre⟩, ?_, ?_⟩ <;>
      · rw [utf8Len_cons]
        omega
    · exact ⟨[], nil_prefix, Nat.zero_le _, by rw [utf8Len_nil]; omega⟩

theorem exists_cut_above (h : n ≤ utf8Len text) :
    ∃ front, front <+: text ∧ n ≤ utf8Len front ∧ utf8Len front ≤ n + 3 := by
  induction text generalizing n with
  | nil =>
    rw [utf8Len_nil] at h
    exact ⟨[], nil_prefix, h, Nat.zero_le _⟩
  | cons c text ih =>
    have hpos := c.utf8Size_pos
    have hfour := c.utf8Size_le_four
    rw [utf8Len_cons] at h
    by_cases hfits : c.utf8Size ≤ n
    · obtain ⟨front, hpre, hle, hnear⟩ := @ih (n - c.utf8Size) (by omega)
      refine ⟨c :: front, cons_prefix_cons.mpr ⟨rfl, hpre⟩, ?_, ?_⟩ <;>
      · rw [utf8Len_cons]
        omega
    · by_cases hzero : n = 0
      · exact ⟨[], nil_prefix, by omega, Nat.zero_le _⟩
      · refine ⟨[c], cons_prefix_cons.mpr ⟨rfl, nil_prefix⟩, ?_, ?_⟩ <;>
        · rw [utf8Len_cons, utf8Len_nil]
          omega

/-! ## The searches -/

theorem floorBoundary_le (text : List Char) (n : ℕ) : floorBoundary text n ≤ n := by
  induction n with
  | zero => exact le_refl _
  | succ n ih =>
    unfold floorBoundary
    split
    · exact le_refl _
    · omega

theorem isCharBoundary_floorBoundary (text : List Char) (n : ℕ) :
    isCharBoundary text (floorBoundary text n) = true := by
  induction n with
  | zero => exact isCharBoundary_iff.mpr ⟨[], nil_prefix, rfl⟩
  | succ n ih =>
    unfold floorBoundary
    split
    · assumption
    · exact ih

theorem le_floorBoundary {n k : ℕ} (hk : isCharBoundary text k = true) (hle : k ≤ n) :
    k ≤ floorBoundary text n := by
  induction n with
  | zero => exact hle
  | succ n ih =>
    unfold floorBoundary
    split
    · exact hle
    · rename_i hnot
      refine ih ?_
      have hne : k ≠ n + 1 := fun heq => hnot (heq ▸ hk)
      omega

theorem le_floorBoundary_add_three (h : n ≤ utf8Len text) :
    n ≤ floorBoundary text n + 3 := by
  obtain ⟨front, hpre, hle, hnear⟩ := exists_cut_below h
  have := le_floorBoundary (isCharBoundary_iff.mpr ⟨front, hpre, rfl⟩) hle
  omega

theorem ceilFrom_spec {steps n k : ℕ} (hk : isCharBoundary text k = true) (hle : n ≤ k)
    (hsteps : k ≤ n + steps) :
    isCharBoundary text (ceilFrom text steps n) = true ∧ n ≤ ceilFrom text steps n ∧
      ceilFrom text steps n ≤ k := by
  induction steps generalizing n with
  | zero =>
    have heq : k = n := by omega
    subst heq
    exact ⟨hk, le_refl _, le_refl _⟩
  | succ steps ih =>
    unfold ceilFrom
    split
    · rename_i hbound
      exact ⟨hbound, le_refl _, hle⟩
    · rename_i hnot
      have hne : n ≠ k := fun heq => hnot (heq ▸ hk)
      obtain ⟨hbound, hfrom, hto⟩ := @ih (n + 1) (by omega) (by omega)
      exact ⟨hbound, by omega, hto⟩

/-- **The search upwards** ends at a boundary at most three bytes above. -/
theorem ceilBoundary_spec (h : n ≤ utf8Len text) :
    isCharBoundary text (ceilBoundary text n) = true ∧ n ≤ ceilBoundary text n ∧
      ceilBoundary text n ≤ n + 3 := by
  obtain ⟨front, hpre, hle, hnear⟩ := exists_cut_above h
  have hend := utf8Len_le_of_prefix hpre
  obtain ⟨hbound, hfrom, hto⟩ := @ceilFrom_spec text (utf8Len text - n) n _
    (isCharBoundary_iff.mpr ⟨front, hpre, rfl⟩) hle (by omega)
  exact ⟨hbound, hfrom, hto.trans hnear⟩

end Chelix.Library
