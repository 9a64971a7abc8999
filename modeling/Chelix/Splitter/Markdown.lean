import Chelix.Library.Text

/-!
# Chunks of lines

A text is split into chunks of whole lines.  A chunk takes lines while their tokens fit, and the
next chunk begins with the last lines of the chunk before it.
-/

namespace Chelix.Splitter

open Chelix.Library

/-! ## Lines -/

/-- A line without the carriage return before its line feed. -/
def stripReturn (line : List Char) : List Char :=
  if line.getLast? = some '\r' then line.dropLast else line

/-- The lines of a text, after what is read of the first. -/
def linesFrom (line : List Char) : List Char → List (List Char)
  | [] => if line = [] then [] else [line]
  | c :: rest =>
    if c = '\n' then stripReturn line :: linesFrom [] rest else linesFrom (line ++ [c]) rest

def textLines (text : List Char) : List (List Char) := linesFrom [] text

/-- The number of words, after a part of a word or not. -/
def wordsFrom (inWord : Bool) : List Char → ℕ
  | [] => 0
  | c :: rest =>
    if isWhiteSpace c then wordsFrom false rest
    else (if inWord then 0 else 1) + wordsFrom true rest

/-- The tokens of a line: its words, and one for an empty line. -/
def lineTokens (line : List Char) : ℕ := max (wordsFrom false line) 1

/-! ## Chunks -/

structure Chunk where
  text : List Char
  startLine : ℕ
  endLine : ℕ
  deriving DecidableEq

section Bounds

variable (tokens : List ℕ) (chunkSize overlap start : ℕ)

/-- How many lines are taken while their tokens fit. -/
def fill (size : ℕ) : ℕ → List ℕ → ℕ
  | _, [] => 0
  | taken, count :: rest => if taken + count ≤ size then 1 + fill size (taken + count) rest else 0

/-- The end of the chunk that begins with a line.  A line that does not fit is taken alone. -/
def chunkEnd : ℕ :=
  let stop := start + fill chunkSize 0 (tokens.drop start)
  if stop = start then start + 1 else stop

/-- The lines before an end are taken again until they have the tokens of the overlap. -/
def walkBack (taken : ℕ) : ℕ → ℕ
  | 0 => 0
  | line + 1 =>
    if start < line + 1 ∧ taken < overlap then walkBack (taken + tokens.getD line 0) line
    else line + 1

def nextStart : ℕ :=
  let back := walkBack tokens overlap start 0 (chunkEnd tokens chunkSize start)
  if back ≤ start then start + 1 else back

theorem start_lt_chunkEnd : start < chunkEnd tokens chunkSize start := by
  simp only [chunkEnd]
  split
  · exact Nat.lt_succ_self _
  · next h => exact lt_of_le_of_ne (Nat.le_add_right _ _) (Ne.symm h)

theorem start_lt_nextStart : start < nextStart tokens chunkSize overlap start := by
  simp only [nextStart]
  split
  · exact Nat.lt_succ_self _
  · next h => exact not_le.mp h

end Bounds

section Chunks

variable (lines : List (List Char)) (tokens : List ℕ) (chunkSize overlap : ℕ)

/-- The chunk of the lines from one on and before another. -/
def chunkOf (start stop : ℕ) : Chunk where
  text := ['\n'].intercalate ((lines.drop start).take (stop - start))
  startLine := start + 1
  endLine := stop

def chunksFrom (start : ℕ) : List Chunk :=
  if start < lines.length then
    chunkOf lines start (chunkEnd tokens chunkSize start) ::
      if lines.length ≤ chunkEnd tokens chunkSize start then []
      else chunksFrom (nextStart tokens chunkSize overlap start)
  else []
termination_by lines.length - start
decreasing_by
  have := start_lt_nextStart tokens chunkSize overlap start
  omega

def chunkMarkdown (text : List Char) : List Chunk :=
  if text = [] ∨ chunkSize = 0 then []
  else chunksFrom (textLines text) ((textLines text).map lineTokens) chunkSize overlap 0

end Chunks

end Chelix.Splitter
