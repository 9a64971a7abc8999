import Chelix.Library.Json
import Chelix.Library.JsonText

/-!
# Best-effort repair of JSON

A text that is not read as JSON is tried again without its line comments and trailing commas, and
then with the closing brackets that it lacks.  What reads JSON is a parameter.
-/

namespace Chelix.Agents

open Chelix.Library

/-- What reads JSON: the value of a text, if it is one. -/
abbrev FromStr := List Char → Option Json

/-! ## Pass 1: line comments -/

/-- Where the first pass is; a comment is what follows its first slash. -/
inductive Strip where
  | code
  | string
  | comment

/-- A text without its line comments.  The end of a string is a quote that no backslash comes
before. -/
def stripComments : Strip → (prevChar : Char) → List Char → List Char
  | _, _, [] => []
  | .string, prevChar, ch :: chars =>
    ch :: stripComments (if ch = '"' ∧ prevChar ≠ '\\' then .code else .string) ch chars
  | .comment, prevChar, ch :: chars =>
    if ch = '\n' then '\n' :: stripComments .code '\n' chars
    else stripComments .comment prevChar chars
  | .code, _, ch :: chars =>
    if ch = '"' then ch :: stripComments .string ch chars
    else if ch = '/' ∧ chars.head? = some '/' then stripComments .comment '\n' chars
    else ch :: stripComments .code ch chars

/-! ## Pass 2: trailing commas -/

/-- Where the second and the third pass are: outside of strings, in one, or after a backslash. -/
inductive Scan where
  | code
  | string
  | escape
  deriving DecidableEq

def Scan.next : Scan → Char → Scan
  | .code, ch => if ch = '"' then .string else .code
  | .string, ch => if ch = '\\' then .escape else if ch = '"' then .code else .string
  | .escape, _ => .string

/-- The bytes of a text, each as a character. -/
def byteChars (text : List Char) : List Char :=
  (text.flatMap String.utf8EncodeChar).map fun byte => Char.ofNat byte.toNat

def isAsciiWhitespace (ch : Char) : Bool :=
  ch = '\t' || ch = '\n' || ch = '\x0c' || ch = '\r' || ch = ' '

/-- Whether a closing bracket follows. -/
def closerFollows (chars : List Char) : Bool :=
  match chars.dropWhile isAsciiWhitespace with
  | ch :: _ => ch = '}' || ch = ']'
  | [] => false

def dropTrailingCommas : Scan → List Char → List Char
  | _, [] => []
  | .code, ch :: chars =>
    if ch = ',' ∧ closerFollows chars then dropTrailingCommas .code chars
    else ch :: dropTrailingCommas (Scan.code.next ch) chars
  | scan, ch :: chars => ch :: dropTrailingCommas (scan.next ch) chars

/-! ## Pass 3: closing brackets -/

/-- The closing brackets that are due, the next one first. -/
def pushCloser (stack : List Char) (ch : Char) : List Char :=
  if ch = '{' then '}' :: stack
  else if ch = '[' then ']' :: stack
  else if (ch = '}' ∨ ch = ']') ∧ stack.head? = some ch then stack.tail
  else stack

def scanClosers : Scan → List Char → List Char → Scan × List Char
  | scan, stack, [] => (scan, stack)
  | .code, stack, ch :: chars =>
    scanClosers (Scan.code.next ch) (pushCloser stack ch) chars
  | scan, stack, ch :: chars => scanClosers (scan.next ch) stack chars

/-- What a text lacks at its end: the quote of its last string, and closing brackets. -/
def missingClosers (text : List Char) : List Char :=
  let (scan, stack) := scanClosers .code [] text
  (if scan = .code then [] else ['"']) ++ stack

/-! ## The repair -/

def repairJson (fromStr : FromStr) (input : List Char) : Option Json :=
  match fromStr input with
  | some value => some value
  | none =>
    let buf := stripComments .code '\x00' input
    let cleaned := dropTrailingCommas .code (byteChars buf)
    match fromStr cleaned with
    | some value => some value
    | none => fromStr (cleaned ++ missingClosers cleaned)

end Chelix.Agents
