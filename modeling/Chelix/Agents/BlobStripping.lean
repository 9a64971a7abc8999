import Chelix.Agents.BlobScan
import Chelix.Library.Text

/-!
# Blob stripping removes only blobs

The scan looks for the marker `;base64,` behind any `data:`, however far away; a run of digits
before a data URI goes on into its tag, whose first letters are digits.
-/

namespace Chelix.Agents

open Option

open Library List

/-- A media type without white space and without another tag. -/
structure ProperMime (mime : List Char) : Prop where
  noSpace : ∀ c ∈ mime, isWhiteSpace c = false
  noTag : ¬base64Tag <:+: mime

/-- A text with blobs replaced by their placeholders; the flag says whether a hexadecimal digit is
before the text.  The placeholder of a data URI repeats its media type, whose own runs of digits
are replaced too. -/
inductive Replaced : Bool → List Char → List Char → Prop
  | nil {flag : Bool} : Replaced flag [] []
  | keep {flag : Bool} {c : Char} {text out : List Char} : Replaced (isHexDigit c) text out →
      Replaced flag (c :: text) (c :: out)
  | uri {flag : Bool} {u : DataUri} {afterTag rest out : List Char} : u.Behind afterTag rest →
      ProperMime u.mime → Replaced (u.payload.getLast?.any isHexDigit) rest out →
      Replaced flag (base64Tag ++ afterTag) (stripHexBlobs u.placeholder ++ out)
  | hex {run rest out : List Char} : blobMinLen ≤ run.length →
      (∀ c ∈ run, isHexDigit c = true) → (∀ c ∈ rest.head?, isHexDigit c = false) →
      Replaced true rest out → Replaced false (run ++ rest) (hexPlaceholder run.length ++ out)

/-- The stripped text is the text with blobs replaced. -/
def RemovesOnlyBlobs (text : List Char) : Prop :=
  ∃ out, sanitizeToolResult text = some out ∧ Replaced false text out

/-- A text ends with a run of digits that is long enough to be replaced. -/
def EndsInRun (text : List Char) : Prop :=
  ∃ front run, text = front ++ run ∧ (∀ c ∈ run, isHexDigit c = true) ∧ blobMinLen ≤ run.length

/-- The data URI of a turn has a proper media type, and no long run is in front of it. -/
def Piece.Clean (p : Piece) : Prop :=
  ∀ u ∈ p.uri, ProperMime u.mime ∧ ¬EndsInRun p.plain

def CleanScan (text : List Char) : Prop :=
  ∃ pieces, Base64Scan text pieces ∧ ∀ p ∈ pieces, p.Clean

/-! ## Runs of digits -/

section Runs

variable {run front text rest : List Char} {c : Char}

theorem isHexDigit_head? (hc : isHexDigit c = false) (rest : List Char) :
    ∀ c' ∈ (c :: rest).head?, isHexDigit c' = false := by
  intro c' hc'
  obtain rfl : c = c' := Option.some.inj hc'
  exact hc

theorem renderRun_nil : renderRun [] = [] := if_neg (by decide)

theorem stripHexFrom_append (hrun : ∀ c ∈ run, isHexDigit c = true) (acc : List Char) :
    stripHexFrom acc (run ++ rest) = stripHexFrom (acc ++ run) rest := by
  induction run generalizing acc with
  | nil => rw [nil_append, append_nil]
  | cons c run ih =>
    rw [cons_append]
    conv_lhs => unfold stripHexFrom
    rw [if_pos (hrun c mem_cons_self), ih fun c' hc' => hrun c' (mem_cons_of_mem c hc'),
      append_assoc, singleton_append]

theorem stripHexFrom_of_head? (hrest : ∀ c ∈ rest.head?, isHexDigit c = false)
    (acc : List Char) : stripHexFrom acc rest = renderRun acc ++ stripHexBlobs rest := by
  unfold stripHexBlobs
  cases rest with
  | nil =>
    unfold stripHexFrom
    rw [renderRun_nil, append_nil]
  | cons c rest =>
    have hc := hrest c rfl
    conv_lhs => unfold stripHexFrom
    conv_rhs =>
      rhs
      unfold stripHexFrom
    have hnot : ¬isHexDigit c = true := by
      rw [hc]
      exact Bool.false_ne_true
    rw [if_neg hnot, if_neg hnot, renderRun_nil, nil_append]

theorem stripHexBlobs_run (hrun : ∀ c ∈ run, isHexDigit c = true)
    (hrest : ∀ c ∈ rest.head?, isHexDigit c = false) :
    stripHexBlobs (run ++ rest) = renderRun run ++ stripHexBlobs rest := by
  have hread := @stripHexFrom_append run rest hrun []
  rw [nil_append] at hread
  rw [← stripHexFrom_of_head? hrest run, ← hread]
  rfl

theorem stripHexBlobs_cons (hc : isHexDigit c = false) (text : List Char) :
    stripHexBlobs (c :: text) = c :: stripHexBlobs text := by
  conv_lhs => unfold stripHexBlobs stripHexFrom
  rw [if_neg (by rw [hc]; exact Bool.false_ne_true), renderRun_nil, nil_append]
  rfl

theorem stripHexBlobs_append (hrest : ∀ c ∈ rest.head?, isHexDigit c = false) (text : List Char) :
    stripHexBlobs (text ++ rest) = stripHexBlobs text ++ stripHexBlobs rest := by
  have hfrom : ∀ acc, stripHexFrom acc (text ++ rest) =
      stripHexFrom acc text ++ stripHexBlobs rest := by
    induction text with
    | nil =>
      intro acc
      rw [nil_append, stripHexFrom_of_head? hrest]
      rfl
    | cons c text ih =>
      intro acc
      rw [cons_append]
      unfold stripHexFrom
      split
      · exact ih _
      · rw [ih, append_assoc, cons_append]
  exact hfrom []

theorem stripHexBlobs_append_singleton (hc : isHexDigit c = false) (text rest : List Char) :
    stripHexBlobs (text ++ [c] ++ rest) = stripHexBlobs (text ++ [c]) ++ stripHexBlobs rest := by
  rw [append_assoc, singleton_append, stripHexBlobs_append (isHexDigit_head? hc rest),
    stripHexBlobs_append (isHexDigit_head? hc []), stripHexBlobs_cons hc, stripHexBlobs_cons hc,
    append_assoc]
  rfl

theorem exists_run (text : List Char) :
    ∃ run rest, text = run ++ rest ∧ (∀ c ∈ run, isHexDigit c = true) ∧
      ∀ c ∈ rest.head?, isHexDigit c = false := by
  refine ⟨text.takeWhile isHexDigit, text.dropWhile isHexDigit,
    takeWhile_append_dropWhile.symm, fun c hc => ?_, fun c hc => ?_⟩
  · exact all_eq_true.mp all_takeWhile c hc
  · have hhead := List.head?_dropWhile_not isHexDigit text
    rw [mem_def.mp hc] at hhead
    exact hhead

theorem EndsInRun.of_suffix (h : EndsInRun rest) (front : List Char) :
    EndsInRun (front ++ rest) := by
  obtain ⟨front', run, rfl, hrun, hlong⟩ := h
  exact ⟨front ++ front', run, (append_assoc _ _ _).symm, hrun, hlong⟩

theorem EndsInRun.of_append_cons (h : EndsInRun (front ++ c :: rest)) (hc : isHexDigit c = false) :
    EndsInRun rest := by
  obtain ⟨front', run, heq, hrun, hlong⟩ := h
  have hrun' : run <:+ front ++ c :: rest := ⟨front', heq.symm⟩
  have hrest' : c :: rest <:+ front ++ c :: rest := suffix_append _ _
  have hnot : ¬c :: rest <:+ run := by
    intro hsuffix
    have := hrun c (hsuffix.subset mem_cons_self)
    rw [hc] at this
    exact Bool.false_ne_true this
  have hle : run.length ≤ rest.length := by
    by_contra hlt
    refine hnot (suffix_of_suffix_length_le hrest' hrun' ?_)
    rw [length_cons]
    omega
  obtain ⟨front'', hfront''⟩ := suffix_of_suffix_length_le hrun'
    ((suffix_cons c rest).trans hrest') hle
  exact ⟨front'', run, hfront''.symm, hrun, hlong⟩

end Runs

theorem hexPlaceholder_append_inj {n m : ℕ} {x y : List Char}
    (h : hexPlaceholder n ++ x = hexPlaceholder m ++ y) : n = m ∧ x = y := by
  have hspace (l : List Char) : ∀ c ∈ (" chars]".toList ++ l).head?, c.isDigit = false := by
    intro c hc
    obtain rfl : ' ' = c := Option.some.inj hc
    decide
  unfold hexPlaceholder at h
  simp only [append_assoc] at h
  obtain ⟨hn, hrest⟩ := toString_append_inj (hspace x) (hspace y) (append_cancel_left h)
  exact ⟨hn, append_cancel_left hrest⟩

theorem hexPlaceholder_eq_cons (n : ℕ) : ∃ l, hexPlaceholder n = '[' :: l := ⟨_, rfl⟩

theorem DataUri.placeholder_eq (u : DataUri) : ∃ l, u.placeholder = '[' :: (l ++ [']']) := by
  unfold DataUri.placeholder blobPlaceholder
  split
  · exact ⟨"screenshot captured and displayed in UI".toList, by decide⟩
  · refine ⟨u.mime ++ " data removed — ".toList ++ (toString (utf8Len u.text)).toList ++
      " bytes".toList, ?_⟩
    simp

theorem isHexDigit_bracket : isHexDigit '[' = false ∧ isHexDigit ']' = false := by decide

theorem DataUri.stripHexBlobs_placeholder (u : DataUri) (rest : List Char) :
    stripHexBlobs (u.placeholder ++ rest) = stripHexBlobs u.placeholder ++ stripHexBlobs rest := by
  obtain ⟨l, hl⟩ := u.placeholder_eq
  rw [hl, ← cons_append, stripHexBlobs_append_singleton isHexDigit_bracket.2]

theorem DataUri.exists_stripped_placeholder (u : DataUri) :
    ∃ l, stripHexBlobs u.placeholder = '[' :: l := by
  obtain ⟨l, hl⟩ := u.placeholder_eq
  rw [hl, stripHexBlobs_cons isHexDigit_bracket.1]
  exact ⟨_, rfl⟩

theorem isHexDigit_of_isBase64Byte {c : Char} (h : isBase64Byte c = false) :
    isHexDigit c = false := by
  by_contra hhex
  rw [Bool.not_eq_false] at hhex
  unfold isBase64Byte Char.isAlphanum Char.isAlpha Char.isUpper Char.isLower at h
  unfold isHexDigit at hhex
  simp only [Bool.or_eq_true, Bool.and_eq_true, decide_eq_true_eq, Bool.or_eq_false_iff,
    Bool.and_eq_false_iff, decide_eq_false_iff_not, UInt32.le_iff_toNat_le, Char.reduceVal,
    UInt32.reduceToNat, not_le] at h hhex
  rcases hhex with (hhex | hhex) | hhex
  · rw [hhex] at h
    simp at h
  all_goals omega

/-! ## From the scan to the replaced text -/

namespace Replaced

variable {flag : Bool} {front text run rest out : List Char}

theorem of_true (h : Replaced true text out) : Replaced flag text out := by
  generalize hb : true = b at h
  cases h with
  | nil => exact .nil
  | keep h => exact .keep h
  | uri hu hmime h => exact .uri hu hmime h
  | hex _ _ _ _ => cases hb

theorem keepAll (h : Replaced true rest out) : Replaced flag (run ++ rest) (run ++ out) := by
  induction run generalizing flag with
  | nil => exact h.of_true
  | cons c run ih => exact .keep ih

theorem ofRun (hrun : ∀ c ∈ run, isHexDigit c = true)
    (hflag : flag = false ∨ run = [])
    (hend : blobMinLen ≤ run.length → ∀ c ∈ rest.head?, isHexDigit c = false)
    (h : Replaced true rest out) : Replaced flag (run ++ rest) (renderRun run ++ out) := by
  unfold renderRun
  split
  · rename_i hlong
    rcases hflag with rfl | rfl
    · exact .hex hlong hrun (hend hlong) h
    · exact absurd hlong (by decide)
  · exact keepAll h

/-- **Plain text** is stripped of its runs, if none of them goes on behind it. -/
theorem plain (hflag : flag = false ∨ ∀ c ∈ text.head?, isHexDigit c = false)
    (hend : EndsInRun text → ∀ c ∈ rest.head?, isHexDigit c = false)
    (h : Replaced true rest out) : Replaced flag (text ++ rest) (stripHexBlobs text ++ out) := by
  induction hn : text.length using Nat.strong_induction_on generalizing text flag with
  | _ n ih =>
    obtain ⟨run, rest', rfl, hrun, hhead⟩ := exists_run text
    have hflag' : flag = false ∨ run = [] := by
      refine hflag.imp_right fun hnot => ?_
      cases run with
      | nil => rfl
      | cons c run =>
        have hc := hnot c rfl
        rw [hrun c mem_cons_self] at hc
        cases hc
    rw [stripHexBlobs_run hrun hhead, append_assoc, append_assoc]
    cases rest' with
    | nil =>
      -- the text ends with the run
      refine ofRun hrun hflag' (fun hlong => hend ⟨[], run, ?_, hrun, hlong⟩) h
      rw [append_nil]
      rfl
    | cons c rest' =>
      have hc := hhead c rfl
      rw [stripHexBlobs_cons hc, cons_append, cons_append]
      rw [length_append, length_cons] at hn
      have hrest : Replaced (isHexDigit c) (rest' ++ rest) (stripHexBlobs rest' ++ out) := by
        refine ih rest'.length (by omega) (.inl hc) (fun hends => hend ?_) rfl
        have := hends.of_suffix (run ++ [c])
        rw [append_assoc] at this
        exact this
      exact ofRun hrun hflag' (fun _ => isHexDigit_head? hc _) (.keep hrest)

end Replaced

theorem Base64Scan.replaced {text : List Char} {pieces : List Piece} (h : Base64Scan text pieces)
    (hclean : ∀ p ∈ pieces, p.Clean) {flag : Bool}
    (hflag : flag = false ∨ ∀ c ∈ text.head?, isHexDigit c = false) :
    Replaced flag text (stripHexBlobs (pieces.flatMap Piece.rendered)) := by
  induction h generalizing flag with
  | @done text hnone =>
    have hplain := @Replaced.plain flag text [] [] hflag (fun _ c hc => by cases hc) .nil
    rw [append_nil, append_nil] at hplain
    simpa [Piece.rendered] using hplain
  | @skip text front afterTag pieces htag hno hrest ih =>
    have htail := @ih (fun p hp => hclean p (mem_cons_of_mem _ hp)) false (.inl rfl)
    -- the tag ends with a colon
    have hcolon : isHexDigit ':' = false := by decide
    have htagged : front ++ base64Tag = front ++ "data".toList ++ [':'] := by
      rw [append_assoc]
      rfl
    have htext : text = front ++ "data".toList ++ ':' :: afterTag := by
      rw [htag.eq, append_assoc]
      rfl
    have hkeep : Replaced true (':' :: afterTag)
        (':' :: stripHexBlobs (pieces.flatMap Piece.rendered)) := .keep (hcolon ▸ htail)
    have hplain := @Replaced.plain flag (front ++ "data".toList) (':' :: afterTag) _ ?_ ?_ hkeep
    · rw [flatMap_cons]
      simp only [Piece.rendered, map_none, getD_none, append_nil]
      rw [htagged, stripHexBlobs_append_singleton hcolon,
        stripHexBlobs_append (isHexDigit_head? hcolon []), stripHexBlobs_cons hcolon,
        append_assoc, htext]
      exact hplain
    · rw [htext] at hflag
      refine hflag.imp_right fun hnot c hc => hnot c ?_
      rw [mem_def, List.head?_append, mem_def.mp hc]
      rfl
    · exact fun _ => isHexDigit_head? hcolon afterTag
  | @take text front afterTag rest u pieces htag hu hrest ih =>
    obtain ⟨hmime, hends⟩ := hclean _ mem_cons_self u rfl
    have htail := @ih (fun p hp => hclean p (mem_cons_of_mem _ hp))
      (u.payload.getLast?.any isHexDigit)
      (.inr fun c hc => isHexDigit_of_isBase64Byte (hu.whole c hc))
    have hplain := @Replaced.plain flag front (base64Tag ++ afterTag) _ ?_
      (fun h => absurd h hends) (.uri hu hmime htail)
    · rw [flatMap_cons]
      simp only [Piece.rendered, map_some, getD_some]
      obtain ⟨l, hl⟩ := u.placeholder_eq
      rw [append_assoc, stripHexBlobs_append, u.stripHexBlobs_placeholder, htag.eq]
      · exact hplain
      · rw [hl]
        exact isHexDigit_head? isHexDigit_bracket.1 _
    · rw [htag.eq] at hflag
      refine hflag.imp_right fun hnot c hc => hnot c ?_
      rw [mem_def, List.head?_append, mem_def.mp hc]
      rfl

/-! ## From the replaced text to the scan -/

/-- No data URI begins in the first part of a text. -/
def NoUri (text rest : List Char) : Prop :=
  ∀ x y, text = x ++ y → y ≠ [] → ∀ afterTag u rest', y ++ rest = base64Tag ++ afterTag →
    ¬DataUri.Behind u afterTag rest'

namespace NoUri

variable {front text rest : List Char}

theorem of_append (h : NoUri (front ++ text) rest) : NoUri text rest := by
  rintro x y rfl hy
  exact h (front ++ x) y (append_assoc _ _ _).symm hy

theorem left (h : NoUri (front ++ text) rest) : NoUri front (text ++ rest) := by
  rintro x y rfl hy afterTag u rest' heq
  refine h x (y ++ text) (append_assoc _ _ _) (append_ne_nil_of_left_ne_nil hy _)
    afterTag u rest' ?_
  rw [append_assoc]
  exact heq

theorem not_behind {c : Char} (h : NoUri (c :: text) rest) {afterTag rest' : List Char}
    {u : DataUri} (heq : c :: (text ++ rest) = base64Tag ++ afterTag) : ¬u.Behind afterTag rest' :=
  h [] (c :: text) rfl (cons_ne_nil _ _) afterTag u rest' heq

end NoUri

namespace Replaced

variable {flag : Bool} {c c' : Char} {front text run rest out : List Char}

/-- What can become of the first character of a text. -/
theorem cons_cases (h : Replaced flag (c :: text) (c' :: out)) :
    (c = c' ∧ Replaced (isHexDigit c) text out) ∨
      (c' = '[' ∧ ∃ (u : DataUri) (afterTag rest out' : List Char) (flag' : Bool),
        c :: text = base64Tag ++ afterTag ∧ c' :: out = stripHexBlobs u.placeholder ++ out' ∧
          u.Behind afterTag rest ∧ ProperMime u.mime ∧ Replaced flag' rest out') ∨
      (c' = '[' ∧ ∃ run rest out' : List Char,
        c :: text = run ++ rest ∧ c' :: out = hexPlaceholder run.length ++ out' ∧
          blobMinLen ≤ run.length ∧ (∀ d ∈ run, isHexDigit d = true) ∧
          (∀ d ∈ rest.head?, isHexDigit d = false) ∧ Replaced true rest out') := by
  generalize htext : c :: text = l at h
  generalize hout : c' :: out = l' at h
  cases h with
  | nil => cases htext
  | keep h =>
    cases htext
    cases hout
    exact .inl ⟨rfl, h⟩
  | @uri _ u afterTag rest out' hu hmime h =>
    obtain ⟨l, hl⟩ := u.exists_stripped_placeholder
    rw [hl] at hout
    exact .inr (.inl ⟨(List.cons.inj hout).1, u, afterTag, rest, out', _, rfl, rfl, hu, hmime, h⟩)
  | @hex run rest out' hlong hrun hrest h =>
    obtain ⟨l, hl⟩ := hexPlaceholder_eq_cons run.length
    rw [hl] at hout
    exact .inr (.inr ⟨(List.cons.inj hout).1, run, rest, out', rfl, rfl, hlong, hrun, hrest, h⟩)

theorem exists_cons_of_long (h : blobMinLen ≤ run.length) : ∃ d run', run = d :: run' := by
  cases run with
  | nil => exact absurd h (by decide)
  | cons d run => exact ⟨d, run, rfl⟩

theorem rest_of_keepAll (hrun : ∀ c ∈ run, isHexDigit c = true) (hno : NoUri run rest)
    (h : Replaced flag (run ++ rest) (run ++ out)) : ∃ flag', Replaced flag' rest out := by
  induction run generalizing flag with
  | nil => exact ⟨flag, h⟩
  | cons c run ih =>
    have hbracket : c ≠ '[' := by
      rintro rfl
      exact absurd (hrun _ mem_cons_self) (by decide)
    rcases h.cons_cases with ⟨-, h⟩ | ⟨hc, -⟩ | ⟨hc, -⟩
    · exact ih (fun c' hc' => hrun c' (mem_cons_of_mem c hc'))
        (@NoUri.of_append [c] run rest hno) h
    · exact absurd hc hbracket
    · exact absurd hc hbracket

theorem rest_of_run (hrun : ∀ c ∈ run, isHexDigit c = true) (hno : NoUri run rest)
    (h : Replaced flag (run ++ rest) (renderRun run ++ out)) :
    (∃ flag', Replaced flag' rest out) ∧
      (blobMinLen ≤ run.length → ∀ c ∈ rest.head?, isHexDigit c = false) := by
  unfold renderRun at h
  split at h
  · rename_i hlong
    obtain ⟨d, run', rfl⟩ := exists_cons_of_long hlong
    obtain ⟨l, hl⟩ := hexPlaceholder_eq_cons (d :: run').length
    have hd := hrun d mem_cons_self
    rw [hl] at h
    rcases h.cons_cases with ⟨rfl, -⟩ | ⟨-, u, afterTag, rest', out', -, htext, -, hu, -, -⟩ |
      ⟨-, run'', rest', out'', htext, hout, hlong', hrun', hrest', h⟩
    · exact absurd hd (by decide)
    · exact absurd hu (hno.not_behind htext)
    · have hout' : hexPlaceholder (d :: run').length ++ out =
          hexPlaceholder run''.length ++ out'' := by
        rw [hl]
        exact hout
      obtain ⟨hlen, rfl⟩ := hexPlaceholder_append_inj hout'
      obtain ⟨-, rfl⟩ := append_inj htext hlen
      exact ⟨⟨true, h⟩, fun _ => hrest'⟩
  · rename_i hshort
    exact ⟨rest_of_keepAll hrun hno h, fun hlong => absurd hlong hshort⟩

/-- **What became of plain text**: it was stripped of its runs, none of which went on behind it. -/
theorem rest_of_plain (hno : NoUri text rest)
    (h : Replaced flag (text ++ rest) (stripHexBlobs text ++ out)) :
    (∃ flag', Replaced flag' rest out) ∧
      (EndsInRun text → ∀ c ∈ rest.head?, isHexDigit c = false) := by
  induction hn : text.length using Nat.strong_induction_on generalizing text flag with
  | _ n ih =>
    obtain ⟨run, rest', rfl, hrun, hhead⟩ := exists_run text
    rw [stripHexBlobs_run hrun hhead, append_assoc, append_assoc] at h
    obtain ⟨⟨flag', h'⟩, hend⟩ := rest_of_run hrun hno.left h
    cases rest' with
    | nil =>
      refine ⟨⟨flag', h'⟩, fun hends => hend ?_⟩
      obtain ⟨front, run', heq, hrun', hlong⟩ := hends
      rw [append_nil] at heq
      rw [heq, length_append]
      omega
    | cons c rest' =>
      have hc := hhead c rfl
      rw [stripHexBlobs_cons hc, cons_append, cons_append] at h'
      rw [length_append, length_cons] at hn
      rcases h'.cons_cases with ⟨-, h'⟩ | ⟨-, u, afterTag, rest'', out', -, htext, -, hu, -, -⟩ |
        ⟨-, run', rest'', out', htext, -, hlong, hrun', -, -⟩
      · obtain ⟨hrest, hend'⟩ := ih rest'.length (by omega)
          (@NoUri.of_append [c] rest' rest hno.of_append) h' rfl
        exact ⟨hrest, fun hends => hend' (hends.of_append_cons hc)⟩
      · exact absurd hu (hno.of_append.not_behind htext)
      · obtain ⟨d, run'', rfl⟩ := exists_cons_of_long hlong
        have hd := hrun' d mem_cons_self
        rw [← (List.cons.inj htext).1, hc] at hd
        cases hd

end Replaced

theorem base64Tag_head {z y l : List Char} (htag : z ++ y = base64Tag) (hz : z ≠ [])
    (heq : y ++ l = base64Tag ++ text) : y = [] := by
  by_contra hy
  obtain ⟨c, y, rfl⟩ := exists_cons_of_ne_nil hy
  have hc : c = 'd' := (List.cons.inj heq).1
  have hpos := length_pos_iff.mpr hz
  have hlen := congrArg List.length htag
  have hget : base64Tag[z.length]? = some 'd' := by
    rw [← htag, List.getElem?_append_right (le_refl _), Nat.sub_self, hc]
    rfl
  have hfirst : ∀ k < 5, base64Tag[k]? = some 'd' → k = 0 := by decide
  rw [length_append, length_cons] at hlen
  have hfive : base64Tag.length = 5 := by decide
  have := hfirst z.length (by omega) hget
  omega

theorem not_run_of_tag {afterTag run rest : List Char} (h : base64Tag ++ afterTag = run ++ rest)
    (hlong : blobMinLen ≤ run.length) (hrun : ∀ c ∈ run, isHexDigit c = true) : False := by
  have hthree : run[2]? = some 't' := by
    have hlen : 2 < run.length := lt_of_lt_of_le (by decide) hlong
    rw [← @List.getElem?_append_left _ run rest 2 hlen, ← h]
    rfl
  exact absurd (hrun 't' (mem_of_getElem? hthree)) (by decide)

theorem noUri_of_firstMatch {text front afterTag : List Char}
    (h : FirstMatch base64Tag text front afterTag) : NoUri front (base64Tag ++ afterTag) := by
  rintro x y rfl hy afterTag' u rest' heq -
  have hpre := @FirstMatch.front_isPrefix _ _ _ _ x afterTag' h (by
    rw [h.eq, append_assoc, heq])
  have hlen := hpre.length_le
  have hpos := length_pos_iff.mpr hy
  rw [length_append] at hlen
  omega

theorem noUri_tag_of_firstMatch {text front afterTag : List Char}
    (h : FirstMatch base64Tag text front afterTag)
    (hno : ∀ u rest, ¬DataUri.Behind u afterTag rest) : NoUri (front ++ base64Tag) afterTag := by
  intro x y hsplit hy afterTag' u rest' heq hu
  have htext : text = x ++ (base64Tag ++ afterTag') := by
    rw [h.eq, ← append_assoc, hsplit, append_assoc, heq]
  obtain ⟨z, rfl⟩ := h.front_isPrefix htext
  rw [append_assoc] at hsplit
  have htag := append_cancel_left hsplit
  by_cases hz : z = []
  · subst hz
    rw [nil_append] at htag
    rw [← htag] at heq
    rw [← append_cancel_left heq] at hu
    exact hno u rest' hu
  · exact hy (base64Tag_head htag.symm hz heq)

/-- The turns over a text of which only blobs are replaced are clean. -/
theorem Base64Scan.clean {text : List Char} {pieces : List Piece} (h : Base64Scan text pieces)
    {flag : Bool} (hreplaced : Replaced flag text (stripHexBlobs (pieces.flatMap Piece.rendered))) :
    ∀ p ∈ pieces, p.Clean := by
  induction h generalizing flag with
  | done _ =>
    intro p hp u hu
    rw [mem_singleton.mp hp] at hu
    cases hu
  | @skip text front afterTag pieces htag hno hrest ih =>
    have htagged : front ++ base64Tag = front ++ "data".toList ++ [':'] := by
      rw [append_assoc]
      rfl
    rw [flatMap_cons] at hreplaced
    simp only [Piece.rendered, map_none, getD_none, append_nil] at hreplaced
    rw [htagged, stripHexBlobs_append_singleton (by decide), ← htagged, htag.eq,
      ← append_assoc] at hreplaced
    obtain ⟨⟨flag', hreplaced'⟩, -⟩ :=
      Replaced.rest_of_plain (noUri_tag_of_firstMatch htag hno) hreplaced
    intro p hp
    rcases mem_cons.mp hp with rfl | hp
    · intro u hu
      cases hu
    · exact ih hreplaced' p hp
  | @take text front afterTag rest u pieces htag hu hrest ih =>
    obtain ⟨l, hl⟩ := u.exists_stripped_placeholder
    obtain ⟨l', hl'⟩ := u.placeholder_eq
    rw [flatMap_cons] at hreplaced
    simp only [Piece.rendered, map_some, getD_some] at hreplaced
    rw [append_assoc, stripHexBlobs_append (by
      rw [hl']
      exact isHexDigit_head? isHexDigit_bracket.1 _), u.stripHexBlobs_placeholder, htag.eq]
      at hreplaced
    obtain ⟨⟨flag', hreplaced'⟩, hend⟩ :=
      Replaced.rest_of_plain (noUri_of_firstMatch htag) hreplaced
    have hends : ¬EndsInRun front := by
      intro hends
      exact absurd (hend hends 'd' rfl) (by decide)
    rw [hl] at hreplaced'
    rcases hreplaced'.cons_cases with ⟨hc, -⟩ |
      ⟨-, u', afterTag', rest', out', _, htext, hout, hu', hmime, h⟩ |
      ⟨-, run, rest', out', htext, -, hlong, hrun, -, -⟩
    · exact absurd hc (by decide)
    · have htext' : base64Tag ++ afterTag = base64Tag ++ afterTag' := htext
      obtain rfl := append_cancel_left htext'
      obtain ⟨hmime', hback⟩ := hu.marker.unique hu'.marker base64Marker_ne_nil
      obtain ⟨hpayload, rfl⟩ :=
        append_inj_of_head? hu.bytes hu'.bytes hu.whole hu'.whole hback
      obtain rfl : u = u' := by
        cases u
        cases u'
        cases hmime'
        cases hpayload
        rfl
      have hout' : stripHexBlobs u.placeholder ++
          stripHexBlobs (pieces.flatMap Piece.rendered) = stripHexBlobs u.placeholder ++ out' :=
        (congrArg (· ++ _) hl).trans hout
      obtain rfl := append_cancel_left hout'
      intro p hp
      rcases mem_cons.mp hp with rfl | hp
      · intro u' hu'
        cases hu'
        exact ⟨hmime, hends⟩
      · exact ih h p hp
    · exact (not_run_of_tag htext hlong hrun).elim

/-- **Blob stripping removes only blobs**, if and only if the scan is clean. -/
theorem removesOnlyBlobs_iff (text : List Char) : RemovesOnlyBlobs text ↔ CleanScan text := by
  constructor
  · rintro ⟨out, hout, hreplaced⟩
    obtain ⟨pieces, hpieces⟩ := exists_base64Scan text
    unfold sanitizeToolResult at hout
    rw [hpieces.stripBase64Blobs_eq] at hout
    obtain rfl := Option.some.inj hout
    exact ⟨pieces, hpieces, hpieces.clean hreplaced⟩
  · rintro ⟨pieces, hpieces, hclean⟩
    refine ⟨stripHexBlobs (pieces.flatMap Piece.rendered), ?_, hpieces.replaced hclean (.inl rfl)⟩
    unfold sanitizeToolResult
    rw [hpieces.stripBase64Blobs_eq]
    rfl

/-- Text between a tag that only mentions one and the data URI behind it is swallowed. -/
theorem mentioned_tag_swallows_text :
    ¬RemovesOnlyBlobs ("data: x data:image/png;base64,".toList ++ List.replicate 200 'A') := by
  rintro ⟨out, hout, hreplaced⟩
  have hhead : (sanitizeToolResult
      ("data: x data:image/png;base64,".toList ++ List.replicate 200 'A')).bind List.head? =
        some '[' := by
    decide +kernel
  rw [hout, Option.bind_some] at hhead
  obtain ⟨out, rfl⟩ := List.head?_eq_some_iff.mp hhead
  have htext : "data: x data:image/png;base64,".toList ++ List.replicate 200 'A' =
      'd' :: ("ata: x data:image/png;base64,".toList ++ List.replicate 200 'A') := rfl
  rw [htext] at hreplaced
  rcases hreplaced.cons_cases with ⟨hc, -⟩ |
    ⟨-, u, afterTag, rest, out', -, htag, -, hu, hmime, -⟩ |
    ⟨-, run, rest, out', hrun, -, hlong, hdigits, -, -⟩
  · exact absurd hc (by decide)
  · have hafter : ' ' :: ("x data:image/png;base64,".toList ++ List.replicate 200 'A') = afterTag :=
      @List.append_cancel_left _ base64Tag _ _ htag
    rw [hu.afterTag_eq] at hafter
    cases hm : u.mime with
    | nil =>
      rw [hm] at hafter
      exact absurd (List.cons.inj hafter).1 (by decide)
    | cons c mime =>
      rw [hm] at hafter
      have hspace := hmime.noSpace c (hm ▸ List.mem_cons_self)
      rw [← (List.cons.inj hafter).1] at hspace
      exact absurd hspace (by decide)
  · exact not_run_of_tag hrun hlong hdigits

end Chelix.Agents
