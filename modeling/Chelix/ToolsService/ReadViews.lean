import Chelix.Library.Lists
import Chelix.ToolsService.ReadFile

/-!
# Reads are views of the lines

Whatever a read renders are lines of one decomposition of the text of a file.

* **`reads_of_chunks`**: they do, however the file is split into chunks.
-/

namespace Chelix.ToolsService

open Option

open Chelix.Library List LogicalLineReader TextLine RangeSelection

/-! ## The decomposition -/

def hasText (content : List Char) : Bool := (textLines content).any TextLine.hasText

/-- The lines without the empty one behind a final line feed. -/
def tailLines (content : List Char) : List TextLine :=
  if content.getLast? = some '\n' then (textLines content).dropLast else textLines content

def lastLines (n : ℕ) (lines : List TextLine) : List TextLine := lines.drop (lines.length - n)

/-- Lines with their endings between them. -/
def joinLines (options : RenderOptions) : List TextLine → List Char
  | [] => []
  | [line] => renderTextLine options line
  | line :: lines =>
    renderTextLine options line ++ line.ending.letters '\r' '\n' ++ joinLines options lines

theorem length_numberFrom (n : ℕ) (lines : List (List Char × LineEnding)) :
    (numberFrom n lines).length = lines.length := by
  induction lines generalizing n with
  | nil => rfl
  | cons line lines ih => exact congrArg (· + 1) (ih (n + 1))

theorem getElem?_numberFrom (n : ℕ) (lines : List (List Char × LineEnding)) (i : ℕ) :
    (numberFrom n lines)[i]? = lines[i]?.map fun line => ⟨n + i, line.1, line.2⟩ := by
  induction lines generalizing n i with
  | nil => rfl
  | cons line lines ih =>
    cases i with
    | zero => rfl
    | succ i =>
      have hnumber : n + 1 + i = n + (i + 1) := by omega
      rw [numberFrom, List.getElem?_cons_succ, List.getElem?_cons_succ, ih, hnumber]

variable {content : List Char}

theorem getElem?_textLines {i : ℕ} {line : TextLine} (h : (textLines content)[i]? = some line) :
    line.number = i + 1 := by
  unfold textLines at h
  rw [getElem?_numberFrom] at h
  obtain ⟨_, -, rfl⟩ := map_eq_some_iff.mp h
  exact Nat.add_comm 1 i

theorem map_numberFrom {α : Type} (f : List Char × LineEnding → α) (n : ℕ)
    (lines : List (List Char × LineEnding)) :
    (numberFrom n lines).map (fun line => f (line.text, line.ending)) = lines.map f := by
  induction lines generalizing n with
  | nil => rfl
  | cons line lines ih => exact congrArg (f line :: ·) (ih (n + 1))

theorem flatMap_textLines (content : List Char) :
    (textLines content).flatMap (fun line => line.text ++ line.ending.letters '\r' '\n') =
      withoutBom content := by
  have hmap := map_numberFrom (fun line => line.1 ++ line.2.letters '\r' '\n') 1
    (splitLines '\r' '\n' (withoutBom content))
  unfold textLines
  rw [flatMap_def, hmap, ← flatMap_def]
  exact flatMap_splitLines '\r' '\n' _

theorem quiet_of_mem_textLines {line : TextLine} (h : line ∈ textLines content) :
    '\r' ∉ line.text ∧ '\n' ∉ line.text := by
  have hmap : (textLines content).map (fun line => (line.text, line.ending)) = _ :=
    (map_numberFrom id 1 _).trans (map_id _)
  have hmem := mem_map_of_mem (f := fun line => (line.text, line.ending)) h
  rw [hmap] at hmem
  have hquiet := quiet_of_mem_splitLines '\r' '\n' _ hmem
  exact ⟨fun hret => (hquiet _ hret).1 rfl, fun hfeed => (hquiet _ hfeed).2 rfl⟩

theorem withoutBom_getLast? (h : content.getLast? = some '\n') :
    (withoutBom content).getLast? = some '\n' := by
  cases content with
  | nil => cases h
  | cons c text =>
    by_cases hbom : c.toNat = 0xFEFF
    · have hwithout : withoutBom (c :: text) = text := if_pos hbom
      rw [hwithout]
      cases text with
      | nil =>
        obtain rfl : c = '\n' := Option.some.inj h
        exact absurd hbom (by decide)
      | cons d text => exact h
    · have hwithout : withoutBom (c :: text) = c :: text := if_neg hbom
      rw [hwithout]
      exact h

theorem textLines_of_feed (h : content.getLast? = some '\n') :
    1 < (textLines content).length ∧
      ∃ number, textLines content = (textLines content).dropLast ++ [⟨number, [], .none⟩] := by
  obtain ⟨lines, hne, hlines⟩ := getLast?_splitLines '\r' '\n' (withoutBom_getLast? h)
  have hsnoc : ∀ (n : ℕ) (front : List (List Char × LineEnding)),
      numberFrom n (front ++ [([], .none)]) =
        numberFrom n front ++ [⟨n + front.length, [], .none⟩] := by
    intro n front
    induction front generalizing n with
    | nil => rfl
    | cons line front ih =>
      have hnumber : n + 1 + front.length = n + (front.length + 1) := by omega
      rw [cons_append, numberFrom, ih, hnumber]
      rfl
  have htext : textLines content = numberFrom 1 lines ++ [⟨1 + lines.length, [], .none⟩] := by
    unfold textLines
    rw [hlines, hsnoc]
  have hpos := length_pos_iff.mpr hne
  refine ⟨?_, 1 + lines.length, ?_⟩
  · rw [htext, length_append, length_numberFrom, length_singleton]
    omega
  · rw [htext, dropLast_concat]

theorem dropFinal_textLines (content : List Char) :
    dropFinal (decide (content.getLast? = some '\n')) (textLines content) = tailLines content := by
  unfold dropFinal tailLines
  by_cases h : content.getLast? = some '\n'
  · rw [decide_eq_true h, if_pos h, decide_eq_true (textLines_of_feed h).1]
    rfl
  · rw [decide_eq_false h, if_neg h]
    rfl

/-! ## Selections -/

/-- The lines from one number to another, which may be missing. -/
def linesBetween (first : ℕ) (last : Option ℕ) (lines : List TextLine) : List TextLine :=
  (last.elim lines lines.take).drop (first - 1)

theorem filter_le_numberFrom (last n : ℕ) (lines : List (List Char × LineEnding)) :
    (numberFrom n lines).filter (fun line => line.number ≤ last) =
      (numberFrom n lines).take (last + 1 - n) := by
  induction lines generalizing n with
  | nil => simp [numberFrom]
  | cons line lines ih =>
    rw [numberFrom, filter_cons, ih]
    by_cases h : n ≤ last
    · have htake : last + 1 - n = (last + 1 - (n + 1)) + 1 := by omega
      rw [if_pos (by simpa using h), htake, take_succ_cons]
    · have htake : last + 1 - n = 0 := by omega
      have htake' : last + 1 - (n + 1) = 0 := by omega
      rw [if_neg (by simpa using h), htake, htake', take_zero, take_zero]

theorem filter_ge_take_numberFrom (first n k : ℕ) (lines : List (List Char × LineEnding)) :
    ((numberFrom n lines).take k).filter (fun line => first ≤ line.number) =
      ((numberFrom n lines).take k).drop (first - n) := by
  induction lines generalizing n k with
  | nil => simp [numberFrom]
  | cons line lines ih =>
    cases k with
    | zero => simp
    | succ k =>
      rw [numberFrom, take_succ_cons, filter_cons, ih]
      by_cases h : first ≤ n
      · have hdrop : first - n = 0 := by omega
        have hdrop' : first - (n + 1) = 0 := by omega
        rw [if_pos (by simpa using h), hdrop, hdrop', drop_zero, drop_zero]
      · have hdrop : first - n = (first - (n + 1)) + 1 := by omega
        rw [if_neg (by simpa using h), hdrop, drop_succ_cons]

theorem filter_within_textLines (first : ℕ) (last : Option ℕ) (content : List Char) :
    (textLines content).filter (fun line => within first last line.number) =
      linesBetween first last (textLines content) := by
  unfold linesBetween textLines
  cases last with
  | none =>
    have hge := filter_ge_take_numberFrom first 1 (numberFrom 1
      (splitLines '\r' '\n' (withoutBom content))).length
      (splitLines '\r' '\n' (withoutBom content))
    rw [take_length] at hge
    simpa [within] using hge
  | some last =>
    have hle := filter_le_numberFrom last 1
      (splitLines '\r' '\n' (withoutBom content))
    have hge := filter_ge_take_numberFrom first 1 last
      (splitLines '\r' '\n' (withoutBom content))
    rw [Nat.add_sub_cancel] at hle
    rw [← hle, List.filter_filter] at hge
    rw [hle] at hge
    simpa [within] using hge

theorem getLast?_textLines (content : List Char) :
    ((textLines content).getLast?.map number).getD 0 = (textLines content).length := by
  rw [List.getLast?_eq_getElem?]
  cases hlast : (textLines content)[(textLines content).length - 1]? with
  | none =>
    have hlength := List.getElem?_eq_none_iff.mp hlast
    rw [map_none, getD_none]
    omega
  | some line =>
    have hlt := (List.getElem?_eq_some_iff.mp hlast).1
    rw [map_some, getD_some, getElem?_textLines hlast]
    omega

theorem foldl_push (startLine : ℕ) (endLine : Option ℕ) (lines : List TextLine) (s : Selection) :
    lines.foldl (Selection.push startLine endLine) s =
      { selected := s.selected ++ lines.filter fun line => within startLine endLine line.number
        totalLines := (lines.getLast?.map TextLine.number).getD s.totalLines
        hasNonWhitespace := s.hasNonWhitespace || lines.any TextLine.hasText } := by
  induction lines generalizing s with
  | nil => simp
  | cons line lines ih =>
    rw [foldl_cons, ih]
    unfold Selection.push
    rw [filter_cons, List.getLast?_cons, any_cons, Bool.or_assoc]
    congr 1
    · split
      · simp
      · rfl
    · cases lines.getLast? with
      | none | some last => rfl

theorem lastLines_concat (n : ℕ) (lines : List TextLine) (line : TextLine) :
    lastLines n (lines ++ [line]) =
      if (lastLines n lines ++ [line]).length > n then (lastLines n lines ++ [line]).tail
      else lastLines n lines ++ [line] := by
  unfold lastLines
  rw [length_append, length_append, length_singleton, length_drop]
  split
  · next hmore =>
    have hle : lines.length - n ≤ lines.length := Nat.sub_le _ _
    have hsucc : lines.length + 1 - n = (lines.length - n) + 1 := by omega
    rw [hsucc, ← drop_append_of_le_length hle, ← drop_one, drop_drop]
  · next hmore =>
    have hzero : lines.length + 1 - n = 0 := by omega
    have hzero' : lines.length - n = 0 := by omega
    rw [hzero, hzero', drop_zero, drop_zero]

theorem foldl_retain (limit : ℕ) (lines : List TextLine) :
    lines.foldl (Retained.push limit) ⟨[], false⟩ =
      ⟨lastLines limit lines, lines.any TextLine.hasText⟩ := by
  induction lines using List.reverseRecOn with
  | nil => simp [lastLines]
  | append_singleton lines line ih =>
    rw [foldl_append, ih, foldl_cons, foldl_nil]
    unfold Retained.push
    rw [any_append, lastLines_concat]
    simp

theorem foldl_keep (lines : List TextLine) (s : Retained) :
    lines.foldl (fun (s : Retained) line =>
      ⟨s.lines ++ [line], s.hasNonWhitespace || line.hasText⟩) s =
      ⟨s.lines ++ lines, s.hasNonWhitespace || lines.any TextLine.hasText⟩ := by
  induction lines generalizing s with
  | nil => simp
  | cons line lines ih =>
    rw [foldl_cons, ih, any_cons, Bool.or_assoc, append_assoc]
    rfl

/-- The lines that are kept for a tail are the last ones without the empty one. -/
theorem lastLines_dropFinal (n : ℕ) (content : List Char) :
    lastLines n (dropFinal (decide (content.getLast? = some '\n'))
      (lastLines (n + 1) (textLines content))) = lastLines n (tailLines content) := by
  by_cases h : content.getLast? = some '\n'
  · obtain ⟨hmany, -⟩ := textLines_of_feed h
    unfold dropFinal tailLines
    rw [decide_eq_true h, if_pos h, Bool.true_and]
    cases n with
    | zero =>
      have hone : (lastLines 1 (textLines content)).length = 1 := by
        unfold lastLines
        rw [length_drop]
        omega
      rw [hone]
      unfold lastLines
      simp
    | succ n =>
      have hmore : 1 < (lastLines (n + 1 + 1) (textLines content)).length := by
        unfold lastLines
        rw [length_drop]
        omega
      rw [if_pos (decide_eq_true hmore)]
      unfold lastLines
      simp only [dropLast_eq_take, length_drop, length_take, drop_take,
        drop_drop]
      generalize (textLines content).length = total at *
      have hdrop : total - (n + 1 + 1) +
          (min (total - (total - (n + 1 + 1)) - 1) (total - (total - (n + 1 + 1))) - (n + 1)) =
            min (total - 1) total - (n + 1) := by omega
      have htake : total - (total - (n + 1 + 1)) - 1 -
          (min (total - (total - (n + 1 + 1)) - 1) (total - (total - (n + 1 + 1))) - (n + 1)) =
            total - 1 - (min (total - 1) total - (n + 1)) := by omega
      rw [hdrop, htake]
  · unfold dropFinal tailLines
    rw [decide_eq_false h, if_neg h, Bool.false_and, if_neg Bool.false_ne_true]
    unfold lastLines
    rw [drop_drop, length_drop]
    congr 1
    omega

theorem joinLines_cons_cons (options : RenderOptions) (line next : TextLine)
    (lines : List TextLine) :
    joinLines options (line :: next :: lines) = renderTextLine options line ++
      line.ending.letters '\r' '\n' ++ joinLines options (next :: lines) := rfl

theorem renderTextLines_eq (options : RenderOptions) (lines : List TextLine) :
    renderTextLines options lines = joinLines options lines := by
  have hfold : ∀ (rest : List TextLine) (k : ℕ) (output : List Char),
      k + rest.length = lines.length →
      (rest.zipIdx k).foldl (fun output entry =>
        let output := output ++ renderTextLine options entry.1
        if entry.2 + 1 < lines.length then output ++ entry.1.ending.letters '\r' '\n'
        else output) output = output ++ joinLines options rest := by
    intro rest
    induction rest with
    | nil =>
      intro k output hlength
      simp [joinLines]
    | cons line rest ih =>
      intro k output hlength
      rw [length_cons] at hlength
      rw [zipIdx_cons, foldl_cons, ih (k + 1) _ (by omega)]
      cases rest with
      | nil =>
        rw [length_nil] at hlength
        have hnot : ¬k + 1 < lines.length := by omega
        simp only [if_neg hnot, joinLines, append_nil]
      | cons next rest =>
        rw [length_cons] at hlength
        have hmore : k + 1 < lines.length := by omega
        simp only [if_pos hmore, joinLines_cons_cons, append_assoc]
  have hall := hfold lines 0 [] (Nat.zero_add _)
  rwa [nil_append] at hall

theorem zip_map_self {α β : Type} (f : α → β) (entries : List α) :
    entries.zip (entries.map f) = entries.map fun entry => (entry, f entry) := by
  induction entries with
  | nil => rfl
  | cons entry entries ih => exact congrArg ((entry, f entry) :: ·) ih

theorem foldl_rangePush (requested : List RequestedRange) (lines : List TextLine)
    (kept : RequestedRange → List TextLine) (total : ℕ) (seen : Bool) :
    lines.foldl (RangeSelection.push requested) ⟨requested.map kept, total, seen⟩ =
      { selected := requested.map fun range =>
          kept range ++ lines.filter fun line => within range.startLine range.endLine line.number
        totalLines := (lines.getLast?.map TextLine.number).getD total
        hasNonWhitespace := seen || lines.any TextLine.hasText } := by
  induction lines generalizing kept total seen with
  | nil => simp
  | cons line lines ih =>
    have hpush : RangeSelection.push requested ⟨requested.map kept, total, seen⟩ line =
        ⟨requested.map fun range =>
          if within range.startLine range.endLine line.number then kept range ++ [line]
          else kept range, line.number, seen || line.hasText⟩ := by
      unfold RangeSelection.push
      rw [zip_map_self, List.map_map]
      rfl
    rw [foldl_cons, hpush, ih, List.getLast?_cons, any_cons, Bool.or_assoc]
    congr 1
    · refine map_congr_left fun range _ => ?_
      rw [filter_cons]
      split
      · rw [append_assoc, singleton_append]
      · rfl
    · cases lines.getLast? with
      | none | some last => rfl

/-! ## The reads -/

section Reads

variable {content : List Char} (hne : content ≠ []) {chunks : List Chunk}
  (hchunks : bytesOf chunks = encodeUtf8 content) (path : String) (options : RenderOptions)

include hne hchunks

theorem readTextOffset_eq (startLine : ℕ) (requestedLimit : Option ℕ) :
    readTextOffset chunks path options startLine requestedLimit =
      let last := (requestedLimit.map fun limit => min limit maxLinesPerRead).map
        fun limit => startLine + (limit - 1)
      let total := (textLines content).length
      if hasText content = false then .ok (whitespaceFileMessage path)
      else if startLine > total then .error (invalidOffset startLine total)
      else
        let output := joinLines options (linesBetween startLine last (textLines content))
        if (requestedLimit.any fun limit => maxLinesPerRead < limit) && clip last total < total then
          .ok (output ++ truncationNotice (clip last total))
        else .ok output := by
  unfold readTextOffset
  generalize hlast : (requestedLimit.map fun limit => min limit maxLinesPerRead).map
    (fun limit => startLine + (limit - 1)) = last
  obtain ⟨reader, hloop, -⟩ := forEachLine_eq path
    (Selection.push startLine last) .empty hne hchunks
  have hfold : (textLines content).foldl (Selection.push startLine last) .empty =
      { selected := linesBetween startLine last (textLines content)
        totalLines := (textLines content).length
        hasNonWhitespace := hasText content } := by
    rw [foldl_push]
    unfold Selection.empty
    rw [filter_within_textLines, getLast?_textLines]
    rfl
  rw [hfold] at hloop
  simp only [hlast, hloop, renderTextLines_eq]
  cases hasText content with
  | false => rfl
  | true =>
    rw [if_neg Bool.false_ne_true.symm]
    rfl

theorem readTextTailUnbounded_eq :
    readTextTailUnbounded chunks path options =
      if hasText content = false then .ok (whitespaceFileMessage path)
      else .ok (joinLines options (tailLines content)) := by
  obtain ⟨reader, hloop, hfeed⟩ := LogicalLineReader.forEachLine_eq path
    (fun (s : Retained) line => ⟨s.lines ++ [line], s.hasNonWhitespace || line.hasText⟩)
    ⟨[], false⟩ hne hchunks
  have hfold := foldl_keep (textLines content) ⟨[], false⟩
  rw [nil_append, Bool.false_or] at hfold
  rw [hfold] at hloop
  unfold readTextTailUnbounded
  simp only [hloop, renderTextLines_eq]
  unfold hasText
  cases (textLines content).any TextLine.hasText with
  | false => rfl
  | true =>
    rw [if_neg Bool.false_ne_true.symm, ← dropFinal_textLines, ← hfeed]
    rfl

theorem readTextTail_eq (limit : ℕ) :
    readTextTail chunks path options limit =
      if hasText content = false then .ok (whitespaceFileMessage path)
      else .ok (joinLines options (lastLines (min limit maxLinesPerRead) (tailLines content))) := by
  obtain ⟨reader, hloop, hfeed⟩ := LogicalLineReader.forEachLine_eq path
    (Retained.push (min limit maxLinesPerRead + 1)) ⟨[], false⟩ hne hchunks
  rw [foldl_retain] at hloop
  have hnat : ¬(limit : ℤ) = -1 := by omega
  have hunsigned : unsignedOf conversionFailed limit = .ok limit := by
    unfold unsignedOf
    rw [if_pos (Int.natCast_nonneg limit), Int.toNat_natCast]
  unfold readTextTail
  rw [if_neg hnat, hunsigned]
  change Except.bind (LogicalLineReader.forEachLine path
    (Retained.push (min limit maxLinesPerRead + 1)) ⟨[], false⟩ (.new chunks)) _ = _
  rw [hloop]
  simp only [Except.bind, renderTextLines_eq]
  unfold hasText
  cases (textLines content).any TextLine.hasText with
  | false => rfl
  | true =>
    rw [if_neg Bool.false_ne_true.symm, ← lastLines_dropFinal, ← hfeed]
    rfl

theorem readTextRanges_eq {read : ReadFileRangesOperation} {requested : List RequestedRange}
    (hrequested : read.ranges.mapM RequestedRange.tryFrom = .ok requested) :
    readTextRanges chunks path options read =
      let total := (textLines content).length
      if hasText content = false then .ok (whitespaceFileMessage path)
      else match requested.zipIdx.find? fun entry => total < entry.1.startLine with
        | some (range, index) => .error (invalidRange index range.startLine total)
        | none => .ok ((if read.includeRangeHeaders then ['\n', '\n'] else ['\n']).intercalate
            (requested.map fun range => rangeBlock options read.includeRangeHeaders total range
              (linesBetween range.startLine range.endLine (textLines content)))) := by
  obtain ⟨reader, hloop, -⟩ := forEachLine_eq path
    (push requested) ⟨requested.map fun _ => [], 0, false⟩ hne hchunks
  have hfold : (textLines content).foldl (push requested)
      ⟨requested.map fun _ => [], 0, false⟩ =
      { selected := requested.map fun range =>
          linesBetween range.startLine range.endLine (textLines content)
        totalLines := (textLines content).length
        hasNonWhitespace := hasText content } := by
    rw [foldl_rangePush, getLast?_textLines]
    simp only [filter_within_textLines, nil_append]
    rfl
  rw [hfold] at hloop
  unfold readTextRanges
  rw [hrequested]
  change Except.bind (forEachLine path (push requested)
    ⟨requested.map fun _ => [], 0, false⟩ (.new chunks)) _ = _
  rw [hloop]
  simp only [Except.bind, zip_map_self, List.map_map]
  cases hasText content with
  | false => rfl
  | true =>
    rw [if_neg Bool.false_ne_true.symm]
    cases requested.zipIdx.find? fun entry =>
      decide ((textLines content).length < entry.1.startLine) with
    | none | some entry => rfl

end Reads

/-- The ranges that a request may have. -/
structure ReadFileRange.Valid (range : ReadFileRange) : Prop where
  startLine : 1 ≤ range.startLine
  endLine : ∀ last ∈ range.endLine, 1 ≤ last ∨ last = -1

/-- The bounds of a range, in order. -/
def ReadFileRange.bounds (range : ReadFileRange) : RequestedRange :=
  match range.endLine with
  | none => ⟨range.startLine.toNat, some range.startLine.toNat⟩
  | some last =>
    if last = -1 then ⟨range.startLine.toNat, none⟩
    else ⟨min range.startLine.toNat last.toNat, some (max range.startLine.toNat last.toNat)⟩

theorem unsignedOf_of_nonneg {message : String} {n : ℤ} (h : 0 ≤ n) :
    unsignedOf message n = .ok n.toNat := if_pos h

theorem ReadFileRange.Valid.tryFrom {range : ReadFileRange} (h : range.Valid) :
    RequestedRange.tryFrom range = .ok range.bounds := by
  have hstart : 0 ≤ range.startLine := by
    have hone := h.startLine
    omega
  unfold RequestedRange.tryFrom ReadFileRange.bounds
  rw [unsignedOf_of_nonneg hstart]
  cases hend : range.endLine with
  | none => rfl
  | some last =>
    rcases h.endLine last (mem_def.mpr hend) with hlast | rfl
    · have hnot : ¬last = -1 := by omega
      have hnonneg : 0 ≤ last := by omega
      change (if last = -1 then _ else _) = _
      rw [if_neg hnot, unsignedOf_of_nonneg hnonneg]
      change (if range.startLine.toNat ≤ last.toNat then _ else _) = _
      by_cases hle : range.startLine.toNat ≤ last.toNat
      · simp only [if_pos hle, if_neg hnot, Nat.min_eq_left hle, Nat.max_eq_right hle]
        rfl
      · have hge : last.toNat ≤ range.startLine.toNat := by omega
        simp only [if_neg hle, if_neg hnot, Nat.min_eq_right hge, Nat.max_eq_left hge]
        rfl
    · rfl

theorem mapM_tryFrom {ranges : List ReadFileRange} (h : ∀ range ∈ ranges, range.Valid) :
    ranges.mapM RequestedRange.tryFrom = .ok (ranges.map ReadFileRange.bounds) := by
  induction ranges with
  | nil => rfl
  | cons range ranges ih =>
    rw [mapM_cons, (h range (mem_cons_self ..)).tryFrom,
      ih fun range hmem => h range (mem_cons_of_mem _ hmem)]
    rfl

/-- **The reads of a file with a text**: they render windows of one list of lines. -/
structure ReadsOf (content : List Char) (chunks : List Chunk) (path : String)
    (options : RenderOptions) : Prop where
  /-- The reader yields the lines. -/
  yields : ∃ reader, LogicalLineReader.forEachLine path (fun lines line => lines ++ [line]) []
    (.new chunks) = .ok (textLines content, reader)
  numbered : ∀ i line, (textLines content)[i]? = some line → line.number = i + 1
  quiet : ∀ line ∈ textLines content, '\r' ∉ line.text ∧ '\n' ∉ line.text
  concat : (textLines content).flatMap (fun line => line.text ++ line.ending.letters '\r' '\n') =
    LogicalLineReader.withoutBom content
  /-- A file of white space is not rendered. -/
  blank : hasText content = false →
    (∀ offset limit : ℤ, -1 ≤ offset → -1 ≤ limit →
      readTextOffsetOrTail chunks path options ⟨offset, limit⟩ =
        .ok (whitespaceFileMessage path)) ∧
    ∀ read : ReadFileRangesOperation, (∀ range ∈ read.ranges, range.Valid) →
      readTextRanges chunks path options read = .ok (whitespaceFileMessage path)
  /-- A read from an offset on, with a notice if the limit was cut. -/
  offset : hasText content = true → ∀ offset limit : ℕ, 0 < offset → 0 < limit →
    readTextOffsetOrTail chunks path options ⟨offset, limit⟩ =
      let last := offset + min limit maxLinesPerRead - 1
      if (textLines content).length < offset then
        .error (invalidOffset offset (textLines content).length)
      else .ok (joinLines options (linesBetween offset (some last) (textLines content)) ++
        if maxLinesPerRead < limit ∧ last < (textLines content).length then truncationNotice last
        else [])
  offsetUnbounded : hasText content = true → ∀ offset : ℕ, 0 < offset →
    readTextOffsetOrTail chunks path options ⟨offset, -1⟩ =
      if (textLines content).length < offset then
        .error (invalidOffset offset (textLines content).length)
      else .ok (joinLines options (linesBetween offset none (textLines content)))
  /-- The last lines. -/
  tail : hasText content = true → ∀ limit : ℕ,
    readTextOffsetOrTail chunks path options ⟨-1, limit⟩ =
      .ok (joinLines options (lastLines (min limit maxLinesPerRead) (tailLines content)))
  tailUnbounded : hasText content = true →
    readTextOffsetOrTail chunks path options ⟨-1, -1⟩ = .ok (joinLines options (tailLines content))
  tails : ∀ limit : ℕ, (tailLines content).length ≤ min limit maxLinesPerRead →
    readTextOffsetOrTail chunks path options ⟨-1, limit⟩ =
      readTextOffsetOrTail chunks path options ⟨-1, -1⟩
  /-- The lines of ranges. -/
  ranges : hasText content = true → ∀ read : ReadFileRangesOperation,
    (∀ range ∈ read.ranges, range.Valid) → readTextRanges chunks path options read =
      let requested := read.ranges.map ReadFileRange.bounds
      match requested.zipIdx.find? fun entry => (textLines content).length < entry.1.startLine with
      | some (range, index) =>
        .error (invalidRange index range.startLine (textLines content).length)
      | none => .ok ((if read.includeRangeHeaders then ['\n', '\n'] else ['\n']).intercalate
          (requested.map fun range =>
            rangeBlock options read.includeRangeHeaders (textLines content).length range
              (linesBetween range.startLine range.endLine (textLines content))))
  /-- Swapped bounds are the same range. -/
  reversed : ∀ a b : ℤ, 1 ≤ a → 1 ≤ b →
    RequestedRange.tryFrom ⟨a, some b⟩ = RequestedRange.tryFrom ⟨b, some a⟩

theorem lastLines_of_le {n : ℕ} {lines : List TextLine} (h : lines.length ≤ n) :
    lastLines n lines = lines := by
  unfold lastLines
  rw [Nat.sub_eq_zero_of_le h, drop_zero]

section Reads

variable {content : List Char} (hne : content ≠ []) {chunks : List Chunk}
  (hchunks : bytesOf chunks = encodeUtf8 content) (path : String) (options : RenderOptions)

include hne hchunks

theorem offsetOrTail_tail (limit : ℕ) :
    readTextOffsetOrTail chunks path options ⟨-1, limit⟩ =
      if hasText content = false then .ok (whitespaceFileMessage path)
      else .ok (joinLines options (lastLines (min limit maxLinesPerRead) (tailLines content))) :=
  (if_pos rfl).trans (readTextTail_eq hne hchunks path options limit)

theorem offsetOrTail_tailUnbounded :
    readTextOffsetOrTail chunks path options ⟨-1, -1⟩ =
      if hasText content = false then .ok (whitespaceFileMessage path)
      else .ok (joinLines options (tailLines content)) :=
  (if_pos rfl).trans ((if_pos rfl).trans (readTextTailUnbounded_eq hne hchunks path options))

omit hne hchunks in
theorem offsetOrTail_offset (offset : ℕ) {limit : ℤ} (hlimit : -1 ≤ limit) :
    readTextOffsetOrTail chunks path options ⟨offset, limit⟩ =
      readTextOffset chunks path options offset
        (if limit = -1 then none else some limit.toNat) := by
  have hoffset : ¬(offset : ℤ) = -1 := by omega
  unfold readTextOffsetOrTail
  rw [if_neg hoffset, unsignedOf_of_nonneg (Int.natCast_nonneg offset), Int.toNat_natCast]
  change (if limit = -1 then _ else _) = _
  by_cases hneg : limit = -1
  · rw [if_pos hneg, if_pos hneg]
  · have hnonneg : 0 ≤ limit := by omega
    rw [if_neg hneg, if_neg hneg, unsignedOf_of_nonneg hnonneg]
    rfl

theorem offsetOrTail_blank (hblank : hasText content = false) {offset limit : ℤ}
    (hoffset : -1 ≤ offset) (hlimit : -1 ≤ limit) :
    readTextOffsetOrTail chunks path options ⟨offset, limit⟩ =
      .ok (whitespaceFileMessage path) := by
  by_cases hneg : offset = -1
  · subst hneg
    by_cases hneg' : limit = -1
    · subst hneg'
      rw [offsetOrTail_tailUnbounded hne hchunks, if_pos hblank]
    · obtain ⟨limit, rfl⟩ := Int.eq_ofNat_of_zero_le (by omega : 0 ≤ limit)
      rw [offsetOrTail_tail hne hchunks, if_pos hblank]
  · obtain ⟨offset, rfl⟩ := Int.eq_ofNat_of_zero_le (by omega : 0 ≤ offset)
    rw [offsetOrTail_offset path options offset hlimit, readTextOffset_eq hne hchunks]
    simp only [if_pos hblank]

theorem offsetOrTail_bounded (htext : hasText content = true) {offset limit : ℕ}
    (hlimit : 0 < limit) :
    readTextOffsetOrTail chunks path options ⟨offset, limit⟩ =
      let last := offset + min limit maxLinesPerRead - 1
      if (textLines content).length < offset then
        .error (invalidOffset offset (textLines content).length)
      else .ok (joinLines options (linesBetween offset (some last) (textLines content)) ++
        if maxLinesPerRead < limit ∧ last < (textLines content).length then truncationNotice last
        else []) := by
  have hpos : 0 < min limit maxLinesPerRead := Nat.lt_min.mpr ⟨hlimit, by decide⟩
  have hlast : offset + (min limit maxLinesPerRead - 1) =
      offset + min limit maxLinesPerRead - 1 := by omega
  have hnat : ¬(limit : ℤ) = -1 := by omega
  rw [offsetOrTail_offset path options offset (by omega), readTextOffset_eq hne hchunks,
    if_neg hnat]
  simp only [htext, if_neg Bool.false_ne_true.symm, map_some, Int.toNat_natCast, hlast,
    any_some, clip, elim_some, Bool.and_eq_true, decide_eq_true_eq]
  generalize offset + min limit maxLinesPerRead - 1 = last
  by_cases hbehind : (textLines content).length < offset
  · rw [if_pos hbehind, if_pos hbehind]
  · rw [if_neg hbehind, if_neg hbehind]
    by_cases hcut : maxLinesPerRead < limit ∧ last < (textLines content).length
    · have hmin : min last (textLines content).length = last := Nat.min_eq_left hcut.2.le
      rw [hmin, if_pos hcut, if_pos hcut]
    · have hcut' : ¬(maxLinesPerRead < limit ∧
          min last (textLines content).length < (textLines content).length) := by omega
      rw [if_neg hcut, if_neg hcut', append_nil]

theorem offsetOrTail_unbounded (htext : hasText content = true) (offset : ℕ) :
    readTextOffsetOrTail chunks path options ⟨offset, -1⟩ =
      if (textLines content).length < offset then
        .error (invalidOffset offset (textLines content).length)
      else .ok (joinLines options (linesBetween offset none (textLines content))) := by
  rw [offsetOrTail_offset path options offset le_rfl, readTextOffset_eq hne hchunks, if_pos rfl]
  simp only [htext, if_neg Bool.false_ne_true.symm, map_none, any_none,
    Bool.false_and]
  rfl

/-- **All reads are views of one list of lines**, however the file is split into chunks. -/
theorem reads_of_chunks : ReadsOf content chunks path options where
  yields := by
    obtain ⟨reader, hloop, -⟩ := LogicalLineReader.forEachLine_eq path
      (fun lines line => lines ++ [line]) [] hne hchunks
    rw [List.foldl_append_eq_append, List.nil_append, ← List.flatMap_def,
      List.flatMap_singleton'] at hloop
    exact ⟨reader, hloop⟩
  numbered := fun i line h => getElem?_textLines h
  quiet := fun line h => quiet_of_mem_textLines h
  concat := flatMap_textLines content
  blank hblank := by
    refine ⟨fun offset limit => offsetOrTail_blank hne hchunks path options hblank, ?_⟩
    intro read hvalid
    rw [readTextRanges_eq hne hchunks path options (mapM_tryFrom hvalid)]
    exact if_pos hblank
  offset htext offset limit _ hlimit := offsetOrTail_bounded hne hchunks path options htext hlimit
  offsetUnbounded htext offset _ := offsetOrTail_unbounded hne hchunks path options htext offset
  tail htext limit := by
    rw [offsetOrTail_tail hne hchunks, htext, if_neg Bool.false_ne_true.symm]
  tailUnbounded htext := by
    rw [offsetOrTail_tailUnbounded hne hchunks, htext, if_neg Bool.false_ne_true.symm]
  tails limit hle := by
    rw [offsetOrTail_tail hne hchunks, offsetOrTail_tailUnbounded hne hchunks,
      lastLines_of_le hle]
  ranges htext read hvalid := by
    rw [readTextRanges_eq hne hchunks path options (mapM_tryFrom hvalid)]
    simp only [htext, if_neg Bool.false_ne_true.symm]
  reversed a b ha hb := by
    have hvalid : ∀ a b : ℤ, 1 ≤ a → 1 ≤ b → (ReadFileRange.mk a (some b)).Valid :=
      fun a b ha hb => ⟨ha, fun last hlast => .inl (by cases hlast; exact hb)⟩
    have hnot : ¬a = -1 := by omega
    have hnot' : ¬b = -1 := by omega
    rw [(hvalid a b ha hb).tryFrom, (hvalid b a hb ha).tryFrom]
    unfold ReadFileRange.bounds
    simp only [if_neg hnot, if_neg hnot', Nat.min_comm b.toNat, Nat.max_comm b.toNat]

end Reads

theorem reads_of_split_ending :
    ReadsOf "a\r\nb\n".toList [⟨[97, 13], by decide⟩, ⟨[10, 98, 10], by decide⟩] "/notes"
      ⟨false, false⟩ :=
  reads_of_chunks (by decide) (by decide) "/notes" ⟨false, false⟩

theorem blank_line_not_rendered :
    let chunks : List Chunk := [⟨[32], by decide⟩]
    bytesOf chunks = encodeUtf8 [' '] ∧
      readTextOffsetOrTail chunks "/notes" ⟨false, false⟩ ⟨1, 1⟩ =
        .ok (whitespaceFileMessage "/notes") ∧
      readTextOffsetOrTail chunks "/notes" ⟨false, false⟩ ⟨1, 1⟩ ≠
        .ok (joinLines ⟨false, false⟩ (linesBetween 1 (some 1) (textLines [' ']))) := by
  intro chunks
  have hbytes : bytesOf chunks = encodeUtf8 [' '] := by decide
  have hread := offsetOrTail_blank (by decide) hbytes "/notes" ⟨false, false⟩ (by decide)
    (by decide : -1 ≤ (1 : ℤ)) (by decide : -1 ≤ (1 : ℤ))
  refine ⟨hbytes, hread, ?_⟩
  rw [hread]
  decide

end Chelix.ToolsService
