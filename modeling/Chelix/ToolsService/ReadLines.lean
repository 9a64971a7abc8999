import Chelix.ToolsService.LineReader

/-!
# The lines that are read

However a file is split into chunks, the reader yields the lines of its text, numbered from one.

* **`forEachLine_eq`**: a loop over the reader is one over these lines.
-/

namespace Chelix.ToolsService

open Chelix.Library List

variable {reader reader' : LogicalLineReader} {chunks : List Chunk} {text : List Char}
  {path : String}

namespace LogicalLineReader

/-! ### One line -/

theorem bytesOf_consume (n : ℕ) (chunk : Chunk) (chunks : List Chunk) :
    bytesOf (consume n (chunk :: chunks)) = chunk.bytes.drop n ++ bytesOf chunks := by
  by_cases h : chunk.bytes.drop n = []
  · have hconsume : consume n (chunk :: chunks) = chunks := dif_pos h
    rw [hconsume, h]
    rfl
  · have hconsume : consume n (chunk :: chunks) = ⟨chunk.bytes.drop n, h⟩ :: chunks := dif_neg h
    rw [hconsume]
    rfl

/-- The lines of bytes. -/
abbrev firstLineOf (bytes : List UInt8) : (List UInt8 × LineEnding) × Option (List UInt8) :=
  splitFirst retByte feedByte bytes

theorem quiet_of_isNoSeparator {byte : UInt8} (h : isNoSeparator byte = true) :
    byte ≠ retByte ∧ byte ≠ feedByte := by
  unfold isNoSeparator at h
  rw [Bool.and_eq_true, decide_eq_true_eq, decide_eq_true_eq] at h
  exact h.symm

/-- What a reader is after a line: before the bytes that are left, or at the end. -/
structure After (reader reader' : LogicalLineReader) (read rest : List UInt8) : Prop where
  bytes : bytesOf reader'.chunks = rest
  lineNumber : reader'.lineNumber = reader.lineNumber
  firstLine : reader'.firstLine = reader.firstLine
  lastByte : reader'.lastByte = read.getLast?.or reader.lastByte

variable {separator : UInt8} {rest : List UInt8}

theorem endLine_spec (reader : LogicalLineReader)
    (hseparator : separator = retByte ∨ separator = feedByte)
    (hbytes : bytesOf reader.chunks = rest) (hlast : reader.lastByte = some separator) :
    ∃ ending reader' rest', reader.endLine separator = (ending, reader') ∧
      firstLineOf (separator :: rest) = (([], ending), some rest') ∧
      After reader reader' (ending.letters retByte feedByte) rest' ∧
      reader'.finished = reader.finished ∧
      reader'.emitEmptyAtEof = reader.emitEmptyAtEof := by
  rcases hseparator with rfl | rfl
  · cases hchunks : reader.chunks with
    | nil =>
      rw [hchunks] at hbytes
      subst hbytes
      refine ⟨.cr, reader, [], ?_, rfl, ⟨?_, rfl, rfl, hlast⟩, rfl, rfl⟩
      · unfold endLine
        rw [if_pos rfl, hchunks]
      · rw [hchunks]
        rfl
    | cons next chunks =>
      obtain ⟨b, tail, hnext⟩ := exists_cons_of_ne_nil next.ne_nil
      have hrest : rest = b :: (tail ++ bytesOf chunks) := by
        rw [← hbytes, hchunks]
        change next.bytes ++ bytesOf chunks = _
        rw [hnext]
        rfl
      by_cases hb : b = feedByte
      · subst hb
        refine ⟨.crLf, { reader with chunks := consume 1 reader.chunks, lastByte := some feedByte },
          tail ++ bytesOf chunks, ?_, ?_, ⟨?_, rfl, rfl, rfl⟩, rfl, rfl⟩
        · unfold endLine
          rw [if_pos rfl, hchunks]
          simp only [hnext, List.head?_cons, if_pos]
        · rw [hrest]
          rfl
        · change bytesOf (consume 1 reader.chunks) = _
          rw [hchunks, bytesOf_consume, hnext]
          rfl
      · refine ⟨.cr, reader, rest, ?_, ?_, ⟨hbytes, rfl, rfl, hlast⟩, rfl, rfl⟩
        · unfold endLine
          rw [if_pos rfl, hchunks]
          have hhead : next.bytes.head? ≠ some feedByte := by
            rw [hnext, List.head?_cons]
            exact fun heq => hb (Option.some.inj heq)
          simp only [if_neg hhead]
        · rw [hrest]
          unfold firstLineOf splitFirst
          rw [if_neg (by decide), if_pos rfl]
          simp only [if_neg hb]
  · exact ⟨.lf, reader, rest, if_neg (by decide), rfl, ⟨hbytes, rfl, rfl, hlast⟩, rfl, rfl⟩

/-- Bytes without a separator are before the first line. -/
theorem firstLineOf_append {front : List UInt8} (h : ∀ byte ∈ front, isNoSeparator byte = true)
    (bytes : List UInt8) :
    firstLineOf (front ++ bytes) =
      ((front ++ (firstLineOf bytes).1.1, (firstLineOf bytes).1.2), (firstLineOf bytes).2) :=
  splitFirst_append retByte feedByte (fun byte hbyte => quiet_of_isNoSeparator (h byte hbyte)) bytes

theorem bytesOf_cons (chunk : Chunk) (chunks : List Chunk) :
    bytesOf (chunk :: chunks) = chunk.bytes ++ bytesOf chunks := rfl

/-- A chunk without a separator is read before the rest. -/
theorem After.of_chunk {chunk : Chunk} {read : List UInt8}
    (h : After { reader with lastByte := chunk.bytes.getLast?, emitEmptyAtEof := false }
      reader' read rest) : After reader reader' (chunk.bytes ++ read) rest where
  __ := h
  lastByte := by
    have hor : chunk.bytes.getLast?.or reader.lastByte = chunk.bytes.getLast? := by
      rw [List.getLast?_eq_some_getLast chunk.ne_nil]
      rfl
    rw [h.lastByte, List.getLast?_append, Option.or_assoc, hor]

theorem separator_of_dropWhile {bytes tail : List UInt8}
    (h : bytes.dropWhile isNoSeparator = separator :: tail) :
    separator = retByte ∨ separator = feedByte := by
  have hhead := List.head?_dropWhile_not isNoSeparator bytes
  rw [h] at hhead
  unfold isNoSeparator at hhead
  simp only [List.head?_cons, Bool.and_eq_false_iff, decide_eq_false_iff_not, not_not] at hhead
  exact hhead.symm

theorem readLine_separator {chunk : Chunk} {tail : List UInt8} (reader : LogicalLineReader)
    (bytes : List UInt8) (chunks : List Chunk)
    (hdrop : chunk.bytes.dropWhile isNoSeparator = separator :: tail) :
    ∃ line ending reader' rest,
      reader.readLine bytes (chunk :: chunks) = (some (bytes ++ line, ending), reader') ∧
      firstLineOf (bytesOf (chunk :: chunks)) = ((line, ending), some rest) ∧
      After reader reader' (line ++ ending.letters retByte feedByte) rest ∧
      reader'.finished = reader.finished ∧ reader'.emitEmptyAtEof = true := by
  have hsplit := takeWhile_append_dropWhile (p := isNoSeparator) (l := chunk.bytes)
  have hquiet : ∀ byte ∈ chunk.bytes.takeWhile isNoSeparator, isNoSeparator byte = true :=
    fun byte hbyte => mem_takeWhile_imp hbyte
  rw [hdrop] at hsplit
  rw [readLine, hdrop]
  simp only
  generalize chunk.bytes.takeWhile isNoSeparator = line at hsplit hquiet ⊢
  have hconsume : bytesOf (consume (line.length + 1) (chunk :: chunks)) =
      tail ++ bytesOf chunks := by
    rw [bytesOf_consume, ← hsplit, drop_append, drop_of_length_le (Nat.le_succ _),
      Nat.add_sub_cancel_left]
    rfl
  obtain ⟨ending, reader', rest, hend, hfirst, hafter, hfinished, hemit⟩ := endLine_spec
    { reader with
      lastByte := some separator
      chunks := consume (line.length + 1) (chunk :: chunks)
      emitEmptyAtEof := true }
    (separator_of_dropWhile hdrop) hconsume rfl
  refine ⟨line, ending, reader', rest, ?_, ?_, ?_, hfinished, hemit⟩
  · rw [hend]
  · rw [bytesOf_cons, ← hsplit, append_assoc, firstLineOf_append hquiet, cons_append,
      hfirst, append_nil]
  · refine ⟨hafter.bytes, hafter.lineNumber, hafter.firstLine, ?_⟩
    have hending : ending ≠ .none := by
      intro hnone
      have hlast := (splitFirst_ending retByte feedByte _).mp
        ((congrArg (·.1.2) hfirst).trans hnone)
      change (firstLineOf _).2 = none at hlast
      rw [hfirst] at hlast
      cases hlast
    rw [hafter.lastByte, List.getLast?_append, Option.or_assoc]
    cases ending with
    | none => exact absurd rfl hending
    | lf | cr | crLf => rfl

/-- The last line is what is left; there is none if nothing is, unless a line ended before. -/
theorem readLine_last (reader : LogicalLineReader) (bytes : List UInt8)
    (hlast : (firstLineOf (bytesOf chunks)).2 = none) :
    ∃ reader', reader.readLine bytes chunks =
        (if bytes ++ bytesOf chunks = [] ∧ reader.emitEmptyAtEof = false then none
          else some (bytes ++ bytesOf chunks, .none), reader') ∧
      After reader reader' (bytesOf chunks) [] ∧ reader'.finished = true := by
  induction chunks generalizing reader bytes with
  | nil =>
    have hnil : bytes ++ bytesOf [] = bytes := append_nil _
    rw [hnil]
    unfold readLine
    by_cases hempty : bytes = [] ∧ reader.emitEmptyAtEof = false
    · rw [if_pos hempty]
      simp only [if_pos hempty]
      exact ⟨_, rfl, ⟨rfl, rfl, rfl, rfl⟩, rfl⟩
    · rw [if_neg hempty]
      simp only [if_neg hempty]
      exact ⟨_, rfl, ⟨rfl, rfl, rfl, rfl⟩, rfl⟩
  | cons chunk chunks ih =>
    cases hdrop : chunk.bytes.dropWhile isNoSeparator with
    | nil =>
      have hquiet : ∀ byte ∈ chunk.bytes, isNoSeparator byte = true :=
        dropWhile_eq_nil_iff.mp hdrop
      rw [bytesOf_cons] at hlast ⊢
      rw [firstLineOf_append hquiet] at hlast
      obtain ⟨reader', hread, hafter, hfinished⟩ := ih
        { reader with lastByte := chunk.bytes.getLast?, emitEmptyAtEof := false }
        (bytes ++ chunk.bytes) hlast
      refine ⟨reader', ?_, hafter.of_chunk, hfinished⟩
      have hne : bytes ++ (chunk.bytes ++ bytesOf chunks) ≠ [] := by
        simp [chunk.ne_nil]
      rw [append_assoc, if_neg fun h => hne h.1] at hread
      rw [if_neg fun h => hne h.1, ← hread]
      rw [readLine, hdrop]
    | cons separator tail =>
      obtain ⟨_, _, _, _, -, hfirst, -⟩ := readLine_separator reader bytes chunks hdrop
      rw [hfirst] at hlast
      cases hlast

theorem readLine_more (reader : LogicalLineReader) (bytes : List UInt8) {line : List UInt8}
    {ending : LineEnding} (hmore : firstLineOf (bytesOf chunks) = ((line, ending), some rest)) :
    ∃ reader', reader.readLine bytes chunks = (some (bytes ++ line, ending), reader') ∧
      After reader reader' (line ++ ending.letters retByte feedByte) rest ∧
      reader'.finished = reader.finished ∧ reader'.emitEmptyAtEof = true := by
  induction chunks generalizing reader bytes line with
  | nil => cases hmore
  | cons chunk chunks ih =>
    cases hdrop : chunk.bytes.dropWhile isNoSeparator with
    | nil =>
      have hquiet : ∀ byte ∈ chunk.bytes, isNoSeparator byte = true :=
        dropWhile_eq_nil_iff.mp hdrop
      rw [bytesOf_cons, firstLineOf_append hquiet] at hmore
      cases hfirst : firstLineOf (bytesOf chunks) with
      | mk parts behind =>
        obtain ⟨line', ending'⟩ := parts
        rw [hfirst] at hmore
        cases hmore
        obtain ⟨reader', hread, hafter, hfinished, hemit⟩ := ih
          { reader with lastByte := chunk.bytes.getLast?, emitEmptyAtEof := false }
          (bytes ++ chunk.bytes) hfirst
        refine ⟨reader', ?_, ?_, hfinished, hemit⟩
        · rw [readLine, hdrop, ← append_assoc]
          exact hread
        · rw [append_assoc]
          exact hafter.of_chunk
    | cons separator tail =>
      obtain ⟨line', ending', reader', rest', hread, hfirst, hafter⟩ :=
        readLine_separator reader bytes chunks hdrop
      rw [hmore] at hfirst
      cases hfirst
      exact ⟨reader', hread, hafter⟩

/-! ### One line of text -/

/-- A reader before a part of a text; it has yielded a line if nothing of the text is left. -/
structure Before (reader : LogicalLineReader) (text : List Char) : Prop where
  bytes : bytesOf reader.chunks = encodeUtf8 text
  unfinished : reader.finished = false
  line : text = [] → reader.emitEmptyAtEof = true

/-- The first line of a text. -/
abbrev firstTextLine (text : List Char) : (List Char × LineEnding) × Option (List Char) :=
  splitFirst '\r' '\n' text

theorem firstLineOf_encodeUtf8 (text : List Char) :
    firstLineOf (encodeUtf8 text) =
      ((encodeUtf8 (firstTextLine text).1.1, (firstTextLine text).1.2),
        (firstTextLine text).2.map encodeUtf8) :=
  splitFirst_flatMap encodesSeparators_utf8 text

/-- The line that is made of a text. -/
def lineOf (reader : LogicalLineReader) (line : List Char × LineEnding) : TextLine where
  number := reader.lineNumber + 1
  text := if reader.firstLine then withoutBom line.1 else line.1
  ending := line.2

theorem nextLine_last (hbefore : reader.Before text) (hlast : (firstTextLine text).2 = none)
    (path : String) :
    ∃ reader', nextLine path reader = .ok (some (reader.lineOf (firstTextLine text).1), reader') ∧
      reader'.finished = true ∧
      reader'.lastByte = (encodeUtf8 text).getLast?.or reader.lastByte := by
  have hending := (splitFirst_ending '\r' '\n' text).mpr hlast
  -- the line is the whole text
  have htext : (firstTextLine text).1.1 = text := by
    have hparts := splitFirst_parts '\r' '\n' text
    rw [hlast, hending, Option.getD_none, append_nil] at hparts
    exact (append_nil _).symm.trans hparts
  have hfirst : (firstLineOf (bytesOf reader.chunks)).2 = none := by
    rw [hbefore.bytes, firstLineOf_encodeUtf8, hlast]
    rfl
  obtain ⟨reader', hread, hafter, hfinished⟩ := readLine_last reader [] hfirst
  rw [hbefore.bytes, nil_append] at hread
  have hline : ¬(encodeUtf8 text = [] ∧ reader.emitEmptyAtEof = false) := by
    rintro ⟨hnil, hemit⟩
    have hempty : text = [] := encodeUtf8_injective hnil
    rw [hbefore.line hempty] at hemit
    cases hemit
  rw [if_neg hline] at hread
  refine ⟨{ reader' with lineNumber := reader'.lineNumber + 1, firstLine := false }, ?_, hfinished,
    ?_⟩
  · unfold nextLine lineOf
    rw [hbefore.unfinished, if_neg Bool.false_ne_true, hread]
    simp only [decodeUtf8_encodeUtf8, hafter.lineNumber, hafter.firstLine]
    rw [htext, hending]
  · rw [← hbefore.bytes]
    exact hafter.lastByte

theorem nextLine_more {rest : List Char} (hbefore : reader.Before text)
    (hmore : (firstTextLine text).2 = some rest) (path : String) :
    ∃ reader', nextLine path reader = .ok (some (reader.lineOf (firstTextLine text).1), reader') ∧
      reader'.Before rest ∧ reader'.lineNumber = reader.lineNumber + 1 ∧
      reader'.firstLine = false ∧
      ∀ last, (encodeUtf8 rest).getLast?.or reader'.lastByte = last →
        (encodeUtf8 text).getLast?.or reader.lastByte = last := by
  have hfirst : firstLineOf (bytesOf reader.chunks) =
      ((encodeUtf8 (firstTextLine text).1.1, (firstTextLine text).1.2),
        some (encodeUtf8 rest)) := by
    rw [hbefore.bytes, firstLineOf_encodeUtf8, hmore]
    rfl
  obtain ⟨reader', hread, hafter, hfinished, hemit⟩ := readLine_more reader [] hfirst
  rw [nil_append] at hread
  refine ⟨{ reader' with lineNumber := reader'.lineNumber + 1, firstLine := false }, ?_,
    ⟨hafter.bytes, hfinished.trans hbefore.unfinished, fun _ => hemit⟩, ?_, rfl, ?_⟩
  · unfold nextLine lineOf
    rw [hbefore.unfinished, if_neg Bool.false_ne_true, hread]
    simp only [decodeUtf8_encodeUtf8, hafter.lineNumber, hafter.firstLine]
  · exact congrArg (· + 1) hafter.lineNumber
  · intro last hlast
    have hparts := splitFirst_parts retByte feedByte (bytesOf reader.chunks)
    change (firstLineOf _).1.1 ++ (firstLineOf _).1.2.letters _ _ ++ (firstLineOf _).2.getD [] = _
      at hparts
    rw [hfirst, hbefore.bytes, Option.getD_some] at hparts
    rw [← hparts, List.getLast?_append, Option.or_assoc, ← hafter.lastByte]
    exact hlast

theorem pending_nextLine {line : TextLine} (h : nextLine path reader = .ok (some line, reader')) :
    reader'.pending < reader.pending := by
  unfold nextLine at h
  split at h
  · cases h
  rename_i hunfinished
  have hpending : reader.pending = (bytesOf reader.chunks).length + 1 := by
    unfold pending
    rw [if_neg hunfinished]
  split at h
  · cases h
  rename_i bytes ending reader₁ hread
  simp only at h
  split at h
  · cases h
  cases h
  cases hrest : (firstLineOf (bytesOf reader.chunks)).2 with
  | none =>
    obtain ⟨reader₂, hread₂, hafter, hfinished⟩ := readLine_last reader [] hrest
    obtain rfl : reader₂ = reader₁ := congrArg Prod.snd (hread₂.symm.trans hread)
    rw [hpending]
    change (bytesOf reader₂.chunks).length + (if reader₂.finished = true then 0 else 1) < _
    rw [hafter.bytes, hfinished]
    exact Nat.succ_pos _
  | some rest =>
    obtain ⟨reader₂, hread₂, hafter, hfinished, -⟩ := readLine_more reader []
      (show firstLineOf (bytesOf reader.chunks) = (_, some rest) from Prod.ext rfl hrest)
    obtain rfl : reader₂ = reader₁ := congrArg Prod.snd (hread₂.symm.trans hread)
    have hshorter := length_of_splitFirst retByte feedByte hrest
    rw [hpending]
    change (bytesOf reader₂.chunks).length + (if reader₂.finished = true then 0 else 1) < _
    rw [hafter.bytes, hfinished, if_neg hunfinished]
    exact Nat.succ_lt_succ hshorter

/-! ### All lines -/

/-- A loop over the lines that are left. -/
def forEachLine {σ : Type} (path : String) (step : σ → TextLine → σ) (s : σ)
    (reader : LogicalLineReader) : Except ReadError (σ × LogicalLineReader) :=
  match _h : nextLine path reader with
  | .error e => .error e
  | .ok (none, reader') => .ok (s, reader')
  | .ok (some line, reader') => forEachLine path step (step s line) reader'
termination_by reader.pending
decreasing_by exact pending_nextLine _h

end LogicalLineReader

/-- The lines of a text, numbered from a number on. -/
def numberFrom (number : ℕ) : List (List Char × LineEnding) → List TextLine
  | [] => []
  | line :: lines => ⟨number, line.1, line.2⟩ :: numberFrom (number + 1) lines

/-- The lines of a file with a text. -/
def textLines (content : List Char) : List TextLine :=
  numberFrom 1 (splitLines '\r' '\n' (LogicalLineReader.withoutBom content))

namespace LogicalLineReader

theorem nextLine_finished (h : reader.finished = true) (path : String) :
    nextLine path reader = .ok (none, reader) := if_pos h

variable {σ : Type}

theorem forEachLine_some {step : σ → TextLine → σ} {s : σ} {line : TextLine}
    (h : nextLine path reader = .ok (some line, reader')) :
    forEachLine path step s reader = forEachLine path step (step s line) reader' := by
  rw [forEachLine]
  split
  · rename_i heq
    rw [h] at heq
    cases heq
  · rename_i heq
    rw [h] at heq
    cases heq
  · rename_i heq
    rw [h] at heq
    cases heq
    rfl

theorem forEachLine_none {step : σ → TextLine → σ} {s : σ}
    (h : nextLine path reader = .ok (none, reader')) :
    forEachLine path step s reader = .ok (s, reader') := by
  rw [forEachLine]
  split
  · rename_i heq
    rw [h] at heq
    cases heq
  · rename_i heq
    rw [h] at heq
    cases heq
    rfl
  · rename_i heq
    rw [h] at heq
    cases heq

theorem forEachLine_spec (path : String) (step : σ → TextLine → σ) (s : σ)
    (hbefore : reader.Before text) (hfirst : reader.firstLine = false) :
    ∃ reader', forEachLine path step s reader =
        .ok ((numberFrom (reader.lineNumber + 1) (splitLines '\r' '\n' text)).foldl step s,
          reader') ∧
      reader'.lastByte = (encodeUtf8 text).getLast?.or reader.lastByte := by
  induction text using splitLines_induction '\r' '\n' generalizing reader s with
  | hlast text hlast =>
    obtain ⟨reader', hnext, hfinished, hbyte⟩ := nextLine_last hbefore hlast path
    refine ⟨reader', ?_, hbyte⟩
    rw [forEachLine_some hnext, forEachLine_none (nextLine_finished hfinished path),
      splitLines_eq, hlast]
    unfold lineOf
    rw [hfirst]
    rfl
  | hmore text rest hmore ih =>
    obtain ⟨reader', hnext, hbefore', hnumber, hfirst', hbyte⟩ := nextLine_more hbefore hmore path
    obtain ⟨reader'', hloop, hlast⟩ := ih
      (s := step s (reader.lineOf (firstTextLine text).1)) hbefore' hfirst'
    refine ⟨reader'', ?_, (hbyte _ hlast.symm).symm⟩
    rw [forEachLine_some hnext, hloop, hnumber, splitLines_eq '\r' '\n' text, hmore]
    unfold lineOf
    rw [hfirst]
    rfl

theorem firstTextLine_withoutBom (content : List Char) :
    firstTextLine (withoutBom content) =
      ((withoutBom (firstTextLine content).1.1, (firstTextLine content).1.2),
        (firstTextLine content).2) := by
  cases content with
  | nil => rfl
  | cons c text =>
    by_cases hbom : c.toNat = 0xFEFF
    · have hret : c ≠ '\r' := by
        rintro rfl
        exact absurd hbom (by decide)
      have hfeed : c ≠ '\n' := by
        rintro rfl
        exact absurd hbom (by decide)
      have hwithout : ∀ text, withoutBom (c :: text) = text := fun text => if_pos hbom
      unfold firstTextLine
      rw [splitFirst_cons _ _ hret hfeed, hwithout, hwithout]
    · have hwithout : ∀ text, withoutBom (c :: text) = c :: text := fun text => if_neg hbom
      rw [hwithout]
      unfold firstTextLine splitFirst
      split
      · rfl
      · split
        · cases text with
          | nil => rfl
          | cons d rest =>
            simp only
            split
            · rfl
            · rfl
        · simp only [hwithout]

/-- **The lines of a file** do not depend on its chunks: a loop over the reader is one over the
lines of the text, and what was read last is the last byte of the text. -/
theorem forEachLine_eq (path : String) (step : σ → TextLine → σ) (s : σ) {content : List Char}
    (hne : content ≠ []) (hchunks : bytesOf chunks = encodeUtf8 content) :
    ∃ reader, forEachLine path step s (.new chunks) =
        .ok ((textLines content).foldl step s, reader) ∧
      reader.endsWithLf = decide (content.getLast? = some '\n') := by
  have hbefore : (new chunks).Before content := ⟨hchunks, rfl, fun h => absurd h hne⟩
  have hlines : textLines content = (new chunks).lineOf (firstTextLine content).1 ::
      numberFrom 2 (((firstTextLine content).2.map (splitLines '\r' '\n')).getD []) := by
    have hfirst : splitFirst '\r' '\n' (withoutBom content) = _ := firstTextLine_withoutBom content
    unfold textLines
    rw [splitLines_eq, hfirst]
    rfl
  have hlast : ∀ reader : LogicalLineReader,
      reader.lastByte = (encodeUtf8 content).getLast?.or none →
      reader.endsWithLf = decide (content.getLast? = some '\n') := by
    intro reader hbyte
    unfold endsWithLf
    rw [hbyte, Option.or_none]
    exact decide_eq_decide.mpr getLast?_encodeUtf8_eq_feed
  cases hrest : (firstTextLine content).2 with
  | none =>
    obtain ⟨reader', hnext, hfinished, hbyte⟩ := nextLine_last hbefore hrest path
    refine ⟨reader', ?_, hlast reader' hbyte⟩
    rw [forEachLine_some hnext, forEachLine_none (nextLine_finished hfinished path), hlines, hrest]
    rfl
  | some rest =>
    obtain ⟨reader', hnext, hbefore', hnumber, hfirst', hbyte⟩ := nextLine_more hbefore hrest path
    obtain ⟨reader'', hloop, hlastByte⟩ := forEachLine_spec path step
      (step s ((new chunks).lineOf (firstTextLine content).1)) hbefore' hfirst'
    refine ⟨reader'', ?_, hlast reader'' (hbyte _ hlastByte.symm).symm⟩
    rw [forEachLine_some hnext, hloop, hnumber, hlines, hrest]
    rfl

end LogicalLineReader

end Chelix.ToolsService
