import Chelix.Library.Text
import Chelix.Library.Utf8Bytes

/-!
# The reader of lines

A file is read in chunks, of which lines are made.  Line numbers are natural numbers.
-/

namespace Chelix.ToolsService

open Chelix.Library

inductive ReadError where
  | invalidUtf8 (path : String) (line : ℕ)
  | message (text : String)
  deriving DecidableEq

structure TextLine where
  number : ℕ
  text : List Char
  ending : LineEnding
  deriving DecidableEq

/-! ## The reader of lines -/

/-- What the buffer holds after a read of the file. -/
structure Chunk where
  bytes : List UInt8
  ne_nil : bytes ≠ []

def bytesOf (chunks : List Chunk) : List UInt8 := chunks.flatMap Chunk.bytes

/-- The chunks after some bytes of the first one were consumed. -/
def consume (n : ℕ) : List Chunk → List Chunk
  | [] => []
  | chunk :: chunks =>
    if h : chunk.bytes.drop n = [] then chunks else ⟨chunk.bytes.drop n, h⟩ :: chunks

def isNoSeparator (byte : UInt8) : Bool := byte ≠ feedByte && byte ≠ retByte

structure LogicalLineReader where
  chunks : List Chunk
  emitEmptyAtEof : Bool
  finished : Bool
  lineNumber : ℕ
  firstLine : Bool
  lastByte : Option UInt8

namespace LogicalLineReader

def new (chunks : List Chunk) : LogicalLineReader where
  chunks := chunks
  emitEmptyAtEof := false
  finished := false
  lineNumber := 0
  firstLine := true
  lastByte := none

/-- The end of a line at a separator: a line feed behind a carriage return belongs to it, also in
the next chunk. -/
def endLine (reader : LogicalLineReader) (separator : UInt8) : LineEnding × LogicalLineReader :=
  if separator = retByte then
    match reader.chunks with
    | [] => (.cr, reader)
    | next :: _ =>
      if next.bytes.head? = some feedByte then
        (.crLf, { reader with chunks := consume 1 reader.chunks, lastByte := some feedByte })
      else (.cr, reader)
  else (.lf, reader)

/-- The bytes of the next line behind those read so far, and its ending. -/
def readLine (reader : LogicalLineReader) (bytes : List UInt8) :
    List Chunk → Option (List UInt8 × LineEnding) × LogicalLineReader
  | [] =>
    let reader := { reader with chunks := [], finished := true }
    if bytes = [] ∧ reader.emitEmptyAtEof = false then (none, reader)
    else (some (bytes, .none), { reader with emitEmptyAtEof := false })
  | chunk :: chunks =>
    match chunk.bytes.dropWhile isNoSeparator with
    | [] =>
      readLine
        { reader with lastByte := chunk.bytes.getLast?, emitEmptyAtEof := false }
        (bytes ++ chunk.bytes) chunks
    | separator :: _ =>
      let before := chunk.bytes.takeWhile isNoSeparator
      let reader := { reader with
        lastByte := some separator
        chunks := consume (before.length + 1) (chunk :: chunks)
        emitEmptyAtEof := true }
      let (ending, reader) := reader.endLine separator
      (some (bytes ++ before, ending), reader)

/-- A text without the byte order mark before it. -/
def withoutBom : List Char → List Char
  | [] => []
  | c :: text => if c.toNat = 0xFEFF then text else c :: text

def nextLine (path : String) (reader : LogicalLineReader) :
    Except ReadError (Option TextLine × LogicalLineReader) :=
  if reader.finished then .ok (none, reader)
  else
    match reader.readLine [] reader.chunks with
    | (none, reader) => .ok (none, reader)
    | (some (bytes, ending), reader) =>
      let number := reader.lineNumber + 1
      match decodeUtf8 bytes with
      | none => .error (.invalidUtf8 path number)
      | some text =>
        let text := if reader.firstLine then withoutBom text else text
        .ok (some ⟨number, text, ending⟩,
          { reader with lineNumber := number, firstLine := false })

def endsWithLf (reader : LogicalLineReader) : Bool := reader.lastByte = some feedByte

def pending (reader : LogicalLineReader) : ℕ :=
  (bytesOf reader.chunks).length + if reader.finished then 0 else 1

end LogicalLineReader

end Chelix.ToolsService
