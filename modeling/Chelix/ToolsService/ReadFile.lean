import Chelix.ToolsService.ReadLines

/-!
# Reading text files

A read loops over the lines of a file, keeps those it is asked for, and renders them.  The end of
a range that is the end of the file is missing.
-/

namespace Chelix.ToolsService

open Chelix.Library

def maxLinesPerRead : ℕ := 2000

structure ReadFileOffsetLimitOperation where
  offset : ℤ
  limit : ℤ

structure ReadFileRange where
  startLine : ℤ
  endLine : Option ℤ

structure ReadFileRangesOperation where
  ranges : List ReadFileRange
  includeRangeHeaders : Bool

structure RenderOptions where
  includeLineNumbers : Bool
  numberBlankLines : Bool

/-- The conversion of a signed number to an unsigned one, with the error of a negative one. -/
def unsignedOf (message : String) (n : ℤ) : Except ReadError ℕ :=
  if 0 ≤ n then .ok n.toNat else .error (.message message)

def conversionFailed : String := "out of range integral type conversion attempted"

def whitespaceFileMessage (path : String) : List Char :=
  ("(The file \x60" ++ path ++ "\x60 exists, but contains only whitespace)").toList

/-- The plural of a number of lines. -/
def lineCount (n : ℕ) : String := toString n ++ " line" ++ if n = 1 then "" else "s"

def TextLine.hasText (line : TextLine) : Bool := line.text.any fun c => !isWhiteSpace c

/-! ## Rendering -/

def renderTextLine (options : RenderOptions) (line : TextLine) : List Char :=
  if options.includeLineNumbers && (!line.text.isEmpty || options.numberBlankLines) then
    (toString line.number).toList ++ '\t' :: line.text
  else line.text

/-- The lines with their endings between them. -/
def renderTextLines (options : RenderOptions) (lines : List TextLine) : List Char :=
  lines.zipIdx.foldl (fun output entry =>
    let output := output ++ renderTextLine options entry.1
    if entry.2 + 1 < lines.length then output ++ entry.1.ending.letters '\r' '\n' else output) []

/-! ## Offsets -/

/-- What a read has seen of a file. -/
structure Selection where
  selected : List TextLine
  totalLines : ℕ
  hasNonWhitespace : Bool

def Selection.empty : Selection where
  selected := []
  totalLines := 0
  hasNonWhitespace := false

/-- Whether a line is between two, of which the last may be missing. -/
def within (startLine : ℕ) (endLine : Option ℕ) (number : ℕ) : Bool :=
  startLine ≤ number && endLine.all fun endLine => number ≤ endLine

def Selection.push (startLine : ℕ) (endLine : Option ℕ) (s : Selection) (line : TextLine) :
    Selection where
  selected := if within startLine endLine line.number then s.selected ++ [line] else s.selected
  totalLines := line.number
  hasNonWhitespace := s.hasNonWhitespace || line.hasText

/-- The last line of a range in a file. -/
def clip (endLine : Option ℕ) (totalLines : ℕ) : ℕ :=
  endLine.elim totalLines fun endLine => min endLine totalLines

def invalidOffset (startLine totalLines : ℕ) : ReadError :=
  .message ("Invalid offset " ++ toString startLine ++ ": file only has " ++
    lineCount totalLines ++ ". Line numbers are 1-indexed.")

def truncationNotice (endLine : ℕ) : List Char :=
  ("\n[File content truncated at line " ++ toString endLine ++
    ". Use read_file with read.offset and read.limit to view more.]").toList

variable (chunks : List Chunk) (path : String) (options : RenderOptions)

def readTextOffset (startLine : ℕ) (requestedLimit : Option ℕ) : Except ReadError (List Char) := do
  let effectiveLimit := requestedLimit.map fun limit => min limit maxLinesPerRead
  let selectionEnd := effectiveLimit.map fun limit => startLine + (limit - 1)
  let (s, _) ← LogicalLineReader.forEachLine path (Selection.push startLine selectionEnd) .empty
    (.new chunks)
  if !s.hasNonWhitespace then return whitespaceFileMessage path
  if startLine > s.totalLines then throw (invalidOffset startLine s.totalLines)
  let endLine := clip selectionEnd s.totalLines
  let output := renderTextLines options s.selected
  if (requestedLimit.any fun limit => maxLinesPerRead < limit) && endLine < s.totalLines then
    return output ++ truncationNotice endLine
  else return output

/-! ## The last lines -/

/-- The lines that a tail keeps, with one more before they are cut. -/
structure Retained where
  lines : List TextLine
  hasNonWhitespace : Bool

def Retained.push (limit : ℕ) (s : Retained) (line : TextLine) : Retained where
  lines :=
    let lines := s.lines ++ [line]
    if lines.length > limit then lines.tail else lines
  hasNonWhitespace := s.hasNonWhitespace || line.hasText

/-- The lines without the last one, if the file ends with a line feed. -/
def dropFinal (endsWithLf : Bool) (lines : List TextLine) : List TextLine :=
  if endsWithLf && 1 < lines.length then lines.dropLast else lines

def readTextTailUnbounded : Except ReadError (List Char) := do
  let (s, reader) ← LogicalLineReader.forEachLine path
    (fun (s : Retained) line => ⟨s.lines ++ [line], s.hasNonWhitespace || line.hasText⟩)
    ⟨[], false⟩ (.new chunks)
  if !s.hasNonWhitespace then return whitespaceFileMessage path
  return renderTextLines options (dropFinal reader.endsWithLf s.lines)

def readTextTail (limit : ℤ) : Except ReadError (List Char) := do
  if limit = -1 then readTextTailUnbounded chunks path options
  else do
    let effectiveLimit := min (← unsignedOf conversionFailed limit) maxLinesPerRead
    let (s, reader) ← LogicalLineReader.forEachLine path (Retained.push (effectiveLimit + 1))
      ⟨[], false⟩ (.new chunks)
    if !s.hasNonWhitespace then return whitespaceFileMessage path
    let retained := dropFinal reader.endsWithLf s.lines
    return renderTextLines options (retained.drop (retained.length - effectiveLimit))

def readTextOffsetOrTail (read : ReadFileOffsetLimitOperation) : Except ReadError (List Char) :=
  if read.offset = -1 then readTextTail chunks path options read.limit
  else do
    let startLine ← unsignedOf conversionFailed read.offset
    if read.limit = -1 then readTextOffset chunks path options startLine none
    else do
      let limit ← unsignedOf conversionFailed read.limit
      readTextOffset chunks path options startLine (some limit)

/-! ## Ranges -/

structure RequestedRange where
  startLine : ℕ
  endLine : Option ℕ
  deriving DecidableEq

/-- A range with its bounds in order. -/
def RequestedRange.tryFrom (range : ReadFileRange) : Except ReadError RequestedRange := do
  let startLine ← unsignedOf "range start line exceeds the supported range" range.startLine
  match range.endLine with
  | none => return ⟨startLine, some startLine⟩
  | some last =>
    if last = -1 then return ⟨startLine, none⟩
    else do
      let endLine ← unsignedOf "range end line exceeds the supported range" last
      if startLine ≤ endLine then return ⟨startLine, some endLine⟩
      else return ⟨endLine, some startLine⟩

/-- What a read of ranges has seen of a file, with the lines of each range. -/
structure RangeSelection where
  selected : List (List TextLine)
  totalLines : ℕ
  hasNonWhitespace : Bool

def RangeSelection.push (requested : List RequestedRange) (s : RangeSelection) (line : TextLine) :
    RangeSelection where
  selected := (requested.zip s.selected).map fun entry =>
    if within entry.1.startLine entry.1.endLine line.number then entry.2 ++ [line] else entry.2
  totalLines := line.number
  hasNonWhitespace := s.hasNonWhitespace || line.hasText

def invalidRange (index startLine totalLines : ℕ) : ReadError :=
  .message ("Invalid ranges[" ++ toString index ++ "].startLine " ++ toString startLine ++
    ": file only has " ++ lineCount totalLines ++ ". Line numbers are 1-indexed.")

/-- The lines of a range, with a header if they have one. -/
def rangeBlock (includeHeaders : Bool) (totalLines : ℕ) (range : RequestedRange)
    (lines : List TextLine) : List Char :=
  let output := ['\n'].intercalate (lines.map (renderTextLine options))
  if !includeHeaders then output
  else
    let header := ("--- lines " ++ toString range.startLine ++ "-" ++
      toString (clip range.endLine totalLines) ++ " ---").toList
    if output.isEmpty then header else header ++ '\n' :: output

def readTextRanges (read : ReadFileRangesOperation) : Except ReadError (List Char) := do
  let requested ← read.ranges.mapM RequestedRange.tryFrom
  let (s, _) ← LogicalLineReader.forEachLine path (RangeSelection.push requested)
    ⟨requested.map fun _ => [], 0, false⟩ (.new chunks)
  if !s.hasNonWhitespace then return whitespaceFileMessage path
  match requested.zipIdx.find? fun entry => s.totalLines < entry.1.startLine with
  | some (range, index) => throw (invalidRange index range.startLine s.totalLines)
  | none =>
    let blocks := (requested.zip s.selected).map fun entry =>
      rangeBlock options read.includeRangeHeaders s.totalLines entry.1 entry.2
    return (if read.includeRangeHeaders then ['\n', '\n'] else ['\n']).intercalate blocks

end Chelix.ToolsService
