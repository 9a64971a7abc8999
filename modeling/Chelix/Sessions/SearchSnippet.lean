import Chelix.Library.ByteSearch
import Chelix.Library.CharBoundary

/-!
# Search snippets

The match is looked for in the lower case of a text, and the snippet is cut out of the text
itself.  A loop over the characters translates the offsets of the one into offsets of the other.

* **`snippet_contains_match`**: when there is a snippet, and what it contains.
-/

namespace Chelix.Sessions

open Chelix.Library List

/-- The lower case of a text and of a single character.  That of a text looks at the characters
around a character as well. -/
structure Lowercasing where
  ofText : List Char → List Char
  ofChar : Char → List Char

section Snippet

variable (lower : Lowercasing)

/-- The bytes of the lower case of a character. -/
def Lowercasing.width (c : Char) : ℕ := utf8Len (lower.ofChar c)

/-- The offsets in the text of the characters whose lower case covers a match. -/
def sourceSpan (matchStart matchEnd : ℕ) :
    (chars : List (ℕ × Char)) → (offset : ℕ) → (sourceStart : Option ℕ) → (sourceEnd : ℕ) →
      Option ℕ × ℕ
  | [], _, sourceStart, sourceEnd => (sourceStart, sourceEnd)
  | (index, character) :: rest, offset, sourceStart, sourceEnd =>
    let next := offset + lower.width character
    let sourceStart :=
      if sourceStart.isNone ∧ matchStart < next then some index else sourceStart
    if matchEnd ≤ next then (sourceStart, index + character.utf8Size)
    else sourceSpan matchStart matchEnd rest next sourceStart sourceEnd

/-- The text around the first match; nothing at all, where a character would be cut. -/
def searchSnippet (text query : List Char) : Option (Option (List Char)) :=
  match findByte query (lower.ofText text) with
  | none => some none
  | some matchStart =>
    let matchEnd := matchStart + utf8Len query
    match sourceSpan lower matchStart matchEnd (charIndices text) 0 none (utf8Len text) with
    | (none, _) => some none
    | (some sourceStart, sourceEnd) =>
      let start := floorBoundary text (sourceStart - 40)
      let stop := floorBoundary text (min (sourceEnd + 60) (utf8Len text))
      (slice text start stop).map some

/-! ## Pieces -/

/-- The lower case of a text is made of one piece a character, with as many bytes as the lower
case of that character alone. -/
structure Lowercasing.Pieces (text : List Char) (pieces : List (List Char)) : Prop where
  flatten : pieces.flatten = lower.ofText text
  widths : pieces.map utf8Len = text.map lower.width

def pieceAt (pieces : List (List Char)) (k : ℕ) : ℕ := utf8Len (pieces.take k).flatten

/-- A piece overlaps the part of the lower case between two offsets. -/
def Overlaps (pieces : List (List Char)) (start stop k : ℕ) : Prop :=
  pieceAt pieces k < stop ∧ start < pieceAt pieces (k + 1)

variable {lower}

theorem utf8Len_flatten (pieces : List (List Char)) :
    utf8Len pieces.flatten = (pieces.map utf8Len).sum := by
  induction pieces with
  | nil => rfl
  | cons piece rest ih => rw [flatten_cons, utf8Len_append, ih, map_cons, sum_cons]

variable {text : List Char} {pieces : List (List Char)}

variable {i j : ℕ}

theorem pieceAt_mono (hij : i ≤ j) : pieceAt pieces i ≤ pieceAt pieces j := by
  unfold pieceAt
  obtain ⟨d, rfl⟩ := Nat.exists_eq_add_of_le hij
  rw [take_add, flatten_append, utf8Len_append]
  exact Nat.le_add_right _ _

variable {k : ℕ} {c : Char}

namespace Lowercasing.Pieces

variable (h : lower.Pieces text pieces)
include h

theorem pieceAt_eq (k : ℕ) : pieceAt pieces k = ((text.take k).map lower.width).sum := by
  unfold pieceAt
  rw [utf8Len_flatten, map_take, h.widths, map_take]

theorem pieceAt_succ (hc : text[k]? = some c) :
    pieceAt pieces (k + 1) = pieceAt pieces k + lower.width c := by
  rw [h.pieceAt_eq, h.pieceAt_eq, take_add_one, hc, map_append, sum_append]
  rfl

theorem pieceAt_length : pieceAt pieces text.length = utf8Len (lower.ofText text) := by
  rw [h.pieceAt_eq, take_length, ← h.widths, ← utf8Len_flatten, h.flatten]

end Lowercasing.Pieces

/-! ## The loop -/

/-- The characters from one position up to another are those whose pieces overlap a part. -/
structure Covers (pieces : List (List Char)) (start stop first last : ℕ) : Prop where
  lt : first < last
  before : pieceAt pieces first ≤ start
  starts : start < pieceAt pieces (first + 1)
  inside : pieceAt pieces (last - 1) < stop
  ends : stop ≤ pieceAt pieces last

variable {start stop : ℕ}

theorem Covers.overlaps_iff {start stop first last : ℕ}
    (hcovers : Covers pieces start stop first last) (k : ℕ) :
    Overlaps pieces start stop k ↔ first ≤ k ∧ k < last := by
  constructor
  · rintro ⟨hstop, hstart⟩
    constructor
    · by_contra hlt
      have := @pieceAt_mono pieces _ _ (show k + 1 ≤ first by omega)
      have := hcovers.before
      omega
    · by_contra hle
      have := @pieceAt_mono pieces _ _ (Nat.not_lt.mp hle)
      have := hcovers.ends
      omega
  · rintro ⟨hle, hlt⟩
    have hinside := @pieceAt_mono pieces _ _ (show k ≤ last - 1 by omega)
    have hstarts := @pieceAt_mono pieces _ _ (show first + 1 ≤ k + 1 by omega)
    exact ⟨lt_of_le_of_lt hinside hcovers.inside, lt_of_lt_of_le hcovers.starts hstarts⟩

theorem charIndices_drop (hc : text[k]? = some c) :
    (charIndices text).drop k = (byteAt text k, c) :: (charIndices text).drop (k + 1) := by
  have hget : (charIndices text)[k]? = some (byteAt text k, c) := by
    rw [getElem?_charIndices, hc]
    rfl
  obtain ⟨hk, hget⟩ := List.getElem?_eq_some_iff.mp hget
  rw [drop_eq_getElem_cons hk, hget]

theorem byteAt_succ (hc : text[k]? = some c) :
    byteAt text (k + 1) = byteAt text k + c.utf8Size := by
  unfold byteAt
  rw [take_add_one, hc, utf8Len_append]
  exact congrArg _ (Nat.add_zero _)

theorem sourceSpan_drop (h : lower.Pieces text pieces) (hlt : start < stop)
    (hfits : stop ≤ pieceAt pieces text.length) (hk : k ≤ text.length) {sourceStart : Option ℕ}
    (hopen : pieceAt pieces k < stop) (hstart : (sourceStart = none ∧ pieceAt pieces k ≤ start) ∨
      ∃ first, sourceStart = some (byteAt text first) ∧ first < k ∧
        pieceAt pieces first ≤ start ∧ start < pieceAt pieces (first + 1)) (sourceEnd : ℕ) :
    ∃ first last, Covers pieces start stop first last ∧ last ≤ text.length ∧
      sourceSpan lower start stop ((charIndices text).drop k) (pieceAt pieces k) sourceStart
        sourceEnd = (some (byteAt text first), byteAt text last) := by
  obtain ⟨n, hn⟩ : ∃ n, text.length - k = n := ⟨_, rfl⟩
  induction n generalizing k sourceStart with
  | zero =>
    have heq : k = text.length := by omega
    rw [heq] at hopen
    omega
  | succ n ih =>
    obtain ⟨c, hc⟩ : ∃ c, text[k]? = some c :=
      ⟨_, List.getElem?_eq_getElem (show k < text.length by omega)⟩
    have hnext := h.pieceAt_succ hc
    rw [charIndices_drop hc, sourceSpan, ← hnext]
    -- the start is known after this character if the match begins in it
    have hstart' : ∀ found, found = (if sourceStart.isNone ∧ start < pieceAt pieces (k + 1) then
        some (byteAt text k) else sourceStart) →
        (found = none ∧ pieceAt pieces (k + 1) ≤ start) ∨
          ∃ first, found = some (byteAt text first) ∧ first < k + 1 ∧
            pieceAt pieces first ≤ start ∧ start < pieceAt pieces (first + 1) := by
      rintro found rfl
      rcases hstart with ⟨rfl, hle⟩ | ⟨first, rfl, hfirst, hbefore, hstarts⟩
      · by_cases hbegins : start < pieceAt pieces (k + 1)
        · rw [if_pos ⟨rfl, hbegins⟩]
          exact .inr ⟨k, rfl, Nat.lt_succ_self k, hle, hbegins⟩
        · rw [if_neg fun hboth => hbegins hboth.2]
          exact .inl ⟨rfl, Nat.not_lt.mp hbegins⟩
      · rw [if_neg fun hboth => Bool.false_ne_true hboth.1]
        exact .inr ⟨first, rfl, Nat.lt_succ_of_lt hfirst, hbefore, hstarts⟩
    by_cases hends : stop ≤ pieceAt pieces (k + 1)
    · rw [if_pos hends]
      rcases hstart' _ rfl with ⟨-, hle⟩ | ⟨first, hfound, hfirst, hbefore, hstarts⟩
      · omega
      · refine ⟨first, k + 1, ⟨hfirst, hbefore, hstarts, hopen, hends⟩, by omega, ?_⟩
        rw [hfound, byteAt_succ hc]
    · rw [if_neg hends]
      exact ih (by omega) (Nat.not_le.mp hends) (hstart' _ rfl) (by omega)

theorem sourceSpan_spec (h : lower.Pieces text pieces) (hlt : start < stop)
    (hfits : stop ≤ utf8Len (lower.ofText text)) :
    ∃ first last, Covers pieces start stop first last ∧ last ≤ text.length ∧
      sourceSpan lower start stop (charIndices text) 0 none (utf8Len text) =
        (some (byteAt text first), byteAt text last) := by
  rw [← h.pieceAt_length] at hfits
  exact sourceSpan_drop h hlt hfits (Nat.zero_le _) (lt_of_le_of_lt (Nat.zero_le _) hlt)
    (.inl ⟨rfl, Nat.zero_le _⟩) _

/-! ## The snippet -/

theorem byteAt_mono (text : List Char) (hij : i ≤ j) : byteAt text i ≤ byteAt text j := by
  have := byteAt_add text hij
  omega

theorem exists_byteAt {n : ℕ} (h : isCharBoundary text n = true) :
    ∃ k ≤ text.length, byteAt text k = n := by
  obtain ⟨front, hprefix, rfl⟩ := isCharBoundary_iff.mp h
  refine ⟨front.length, hprefix.length_le, ?_⟩
  unfold byteAt
  rw [← prefix_iff_eq_take.mp hprefix]

theorem isCharBoundary_byteAt (text : List Char) (k : ℕ) :
    isCharBoundary text (byteAt text k) = true :=
  isCharBoundary_iff.mpr ⟨_, take_prefix k text, rfl⟩

theorem byteAt_lt (text : List Char) (hij : i < j) (hj : j ≤ text.length) :
    byteAt text i < byteAt text j := by
  obtain ⟨c, hc⟩ : ∃ c, text[i]? = some c :=
    ⟨_, List.getElem?_eq_getElem (show i < text.length by omega)⟩
  have hsucc := byteAt_succ hc
  have hmono := byteAt_mono text (show i + 1 ≤ j by omega)
  have hpos := c.utf8Size_pos
  omega

/-- **A snippet contains the match**: there is one if and only if the lower-cased text contains the
query.  It is the text between two of its positions, with every character whose lower case overlaps
the first match, and at most 40 bytes before these, 60 behind, and three of a character that would
be cut. -/
theorem snippet_contains_match (h : lower.Pieces text pieces) {query : List Char}
    (hquery : query ≠ []) :
    ∃ result, searchSnippet lower text query = some result ∧
      (result.isSome = true ↔ query <:+: lower.ofText text) ∧
      ∀ snippet, result = some snippet →
        ∃ front back, FirstMatch query (lower.ofText text) front back ∧ ∃ start first last stop,
          start ≤ first ∧ first < last ∧ last ≤ stop ∧ stop ≤ text.length ∧
          snippet = (text.take stop).drop start ∧
          (∀ k, Overlaps pieces (utf8Len front) (utf8Len front + utf8Len query) k ↔
            first ≤ k ∧ k < last) ∧
          utf8Len snippet ≤ 40 + 60 + utf8Len ((text.take last).drop first) + 3 := by
  have hbounds : ∀ front back, FirstMatch query (lower.ofText text) front back →
      utf8Len front < utf8Len front + utf8Len query ∧
        utf8Len front + utf8Len query ≤ utf8Len (lower.ofText text) := by
    intro front back hmatch
    have hpos : 0 < utf8Len query :=
      Nat.pos_of_ne_zero fun hzero => hquery (utf8Len_eq_zero hzero)
    rw [hmatch.eq, utf8Len_append, utf8Len_append]
    omega
  rcases @exists_firstMatch _ (lower.ofText text) hquery with hnone | ⟨front, back, hmatch⟩
  · refine ⟨none, ?_, ?_, fun _ heq => by cases heq⟩
    · unfold searchSnippet
      rw [findByte_eq_none hquery hnone]
    · refine iff_of_false Bool.false_ne_true fun hinfix => ?_
      obtain ⟨j, hj⟩ := exists_occursAt_iff.mpr hinfix
      exact hnone j hj
  · obtain ⟨hlt, hfits⟩ := hbounds front back hmatch
    obtain ⟨first, last, hcovers, hlast, hspan⟩ := sourceSpan_spec h hlt hfits
    have hlen := byteAt_length text
    have hlastLen := byteAt_mono text hlast
    -- the cuts before the first character and behind the last
    obtain ⟨start, hstartLen, hstart⟩ :=
      exists_byteAt (isCharBoundary_floorBoundary text (byteAt text first - 40))
    obtain ⟨stop, hstop, hstopEq⟩ := exists_byteAt
      (isCharBoundary_floorBoundary text (min (byteAt text last + 60) (utf8Len text)))
    have hstartLe := floorBoundary_le text (byteAt text first - 40)
    have hstartNear : byteAt text first - 40 ≤ byteAt text start + 3 := by
      rw [hstart]
      have hfirstLast := byteAt_mono text hcovers.lt.le
      exact le_floorBoundary_add_three (by omega)
    have hstopLe := floorBoundary_le text (min (byteAt text last + 60) (utf8Len text))
    have hstopGe : byteAt text last ≤ byteAt text stop := by
      rw [hstopEq]
      exact le_floorBoundary (isCharBoundary_byteAt text last) (by omega)
    have hbefore : start ≤ first := by
      by_contra hgt
      have := byteAt_lt text (Nat.not_le.mp hgt) hstartLen
      omega
    have hbehind : last ≤ stop := by
      by_contra hgt
      have := byteAt_lt text (Nat.not_le.mp hgt) hlast
      omega
    have hordered : start ≤ stop := hbefore.trans (hcovers.lt.le.trans hbehind)
    have hlength := byteAt_add text hordered
    have hcovered := byteAt_add text hcovers.lt.le
    refine ⟨some ((text.take stop).drop start), ?_, ?_, ?_⟩
    · unfold searchSnippet
      rw [hmatch.findByte_eq hquery]
      simp only [hspan, ← hstart, ← hstopEq]
      rw [slice_byteAt text hordered]
      rfl
    · refine iff_of_true rfl ?_
      rw [hmatch.eq]
      exact ⟨front, back, by rw [List.append_assoc]⟩
    · rintro snippet heq
      cases heq
      refine ⟨front, back, hmatch, start, first, last, stop, hbefore, hcovers.lt, hbehind, hstop,
        rfl, hcovers.overlaps_iff, ?_⟩
      omega

/-- The lower case of the dotted capital is a letter and a combining dot, one byte more. -/
def dottedLowercasing : Lowercasing where
  ofText text := text.flatMap fun c => if c = 'İ' then ['i', '\u0307'] else [c.toLower]
  ofChar c := if c = 'İ' then ['i', '\u0307'] else [c.toLower]

theorem snippet_contains_match_dotted :
    ∃ result, searchSnippet dottedLowercasing ['İ', 'K'] ['k'] = some result ∧
      (result.isSome = true ↔ ['k'] <:+: dottedLowercasing.ofText ['İ', 'K']) := by
  have hpieces : dottedLowercasing.Pieces ['İ', 'K'] [['i', '\u0307'], ['k']] :=
    ⟨by decide, by decide⟩
  obtain ⟨result, hresult, hiff, -⟩ :=
    snippet_contains_match hpieces (List.cons_ne_nil 'k' [])
  exact ⟨result, hresult, hiff⟩

example : searchSnippet dottedLowercasing ['İ', 'K'] ['k'] = some (some ['İ', 'K']) := by decide

end Snippet

end Chelix.Sessions
