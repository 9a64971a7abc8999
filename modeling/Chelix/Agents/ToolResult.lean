import Chelix.Library.ByteSearch
import Chelix.Library.CharBoundary
import Chelix.Library.Json

/-!
# Tool results

The copy of a tool's result that enters the context: blobs are replaced by placeholders, and a
copy beyond its budget is truncated and gets a pointer to the persisted result.  Offsets count
bytes; a slice off a character boundary gives `none`.
-/

namespace Chelix.Agents

open Library

/-- The tag that starts a base64 data URI. -/
def base64Tag : List Char := "data:".toList

/-- The marker between the media type and the payload. -/
def base64Marker : List Char := ";base64,".toList

/-- The least length of a payload that is replaced. -/
def blobMinLen : ℕ := 200

def isBase64Byte (c : Char) : Bool := c.isAlphanum || c = '+' || c = '/' || c = '='

def isHexDigit (c : Char) : Bool :=
  c.isDigit || ('a'.val ≤ c.val && c.val ≤ 'f'.val) || ('A'.val ≤ c.val && c.val ≤ 'F'.val)

/-! ## Data URIs -/

/-- What a data URI of a media type is replaced by. -/
def blobPlaceholder (mimePart : List Char) (totalUriLen : ℕ) : List Char :=
  if "image/".toList <+: mimePart then "[screenshot captured and displayed in UI]".toList
  else
    '[' :: mimePart ++ " data removed — ".toList ++ (toString totalUriLen).toList ++
      " bytes]".toList

/-- The placeholder of the data URI whose tag is before a text and its length in bytes, if the
text goes on as a data URI with a long payload does. -/
def dataBlob (afterTag : List Char) : Option (Option (List Char × ℕ)) :=
  match findByte base64Marker afterTag with
  | none => some none
  | some markerPos => do
      let (mimePart, _) ← splitAtByte markerPos afterTag
      let payloadStart := markerPos + utf8Len base64Marker
      let (_, payload) ← splitAtByte payloadStart afterTag
      let payloadLen := (payload.takeWhile isBase64Byte).length
      if blobMinLen ≤ payloadLen then
        let totalUriLen := utf8Len base64Tag + payloadStart + payloadLen
        some (some (blobPlaceholder mimePart totalUriLen, totalUriLen))
      else some none

/-- The loop over the tags of the rest of a text.  Each turn consumes a tag. -/
def stripBase64From : ℕ → List Char → Option (List Char)
  | 0, _ => none
  | fuel + 1, rest =>
    match findByte base64Tag rest with
    | none => some rest
    | some start => do
        let (front, _) ← splitAtByte start rest
        let (_, afterTag) ← splitAtByte (start + utf8Len base64Tag) rest
        match ← dataBlob afterTag with
        | some (placeholder, totalUriLen) =>
          let (_, next) ← splitAtByte (start + totalUriLen) rest
          let result ← stripBase64From fuel next
          some (front ++ placeholder ++ result)
        | none =>
          let result ← stripBase64From fuel afterTag
          some (front ++ base64Tag ++ result)

def stripBase64Blobs (input : List Char) : Option (List Char) :=
  stripBase64From (input.length + 1) input

/-! ## Runs of hexadecimal digits -/

def hexPlaceholder (run : ℕ) : List Char :=
  "[hex data removed — ".toList ++ (toString run).toList ++ " chars]".toList

/-- What a run of hexadecimal digits becomes. -/
def renderRun (run : List Char) : List Char :=
  if blobMinLen ≤ run.length then hexPlaceholder run.length else run

/-- The loop over the characters, with the digits of the run that is being read. -/
def stripHexFrom : (run : List Char) → List Char → List Char
  | run, [] => renderRun run
  | run, c :: rest =>
    if isHexDigit c then stripHexFrom (run ++ [c]) rest
    else renderRun run ++ c :: stripHexFrom [] rest

def stripHexBlobs (input : List Char) : List Char := stripHexFrom [] input

def sanitizeToolResult (input : List Char) : Option (List Char) :=
  (stripBase64Blobs input).map stripHexBlobs

/-! ## Truncation -/

/-- How the copy of a result is truncated. -/
inductive Truncation where
  | standard
  | end_
  | off
  deriving DecidableEq

inductive ToolResultPersistence where
  | off
  | on
  deriving DecidableEq

/-- `String::truncate`: an offset past the end cuts nothing. -/
def truncate (text : List Char) (n : ℕ) : Option (List Char) :=
  if n ≤ utf8Len text then (splitAtByte n text).map Prod.fst else some text

def truncateAtCharBoundary (result : List Char) (maxBytes : ℕ) : Option (List Char) :=
  truncate result (floorBoundary result maxBytes)

def truncateEndAtCharBoundary (result : List Char) (maxBytes preservePrefix : ℕ) :
    Option (List Char) :=
  if utf8Len result ≤ maxBytes then some result
  else
    let prefixLen := floorBoundary result (min preservePrefix maxBytes)
    let tailBudget := maxBytes - prefixLen
    if tailBudget = 0 then truncate result prefixLen
    else do
      let tailStart := ceilBoundary result (utf8Len result - tailBudget)
      let (_, tail) ← splitAtByte tailStart result
      let head ← truncate result prefixLen
      some (head ++ tail)

/-- A result on disk. -/
structure PersistedToolResult where
  contentPath : String
  schemaPath : Option String
  contentBytes : ℕ
  contentLines : ℕ
  deriving DecidableEq

/-- The store of the results: what it answers to the result of one call. -/
structure ToolResultStore where
  persistText : (sessionKey callId content : String) → Except String PersistedToolResult
  persist : (sessionKey callId : String) → (raw : List Char) → Except String PersistedToolResult

/-- The pointer to a result on disk. -/
def fullOutputPointer (persisted : PersistedToolResult) : List Char :=
  let kb := (persisted.contentBytes + 1023) / 1024
  "\n\n[Truncated — full tool result (".toList ++ (toString kb).toList ++ "KB or ".toList ++
    (toString persisted.contentLines).toList ++
    " lines) written to file. Use the read_file tool to access the content at: ".toList ++
    persisted.contentPath.toList ++ "]".toList ++
    match persisted.schemaPath with
    | some schemaPath => "\n[Data schema found at: ".toList ++ schemaPath.toList ++ "]".toList
    | none => []

section

variable (store : ToolResultStore) (toStringPretty : Json → Except String (List Char))

/-- The text of an agent-facing value. -/
def renderResult (resultValue : Json) : Except String (List Char) :=
  match resultValue with
  | .str text => .ok text.toList
  | value => toStringPretty value

def persistResult (sessionKey callId : String) (resultValue : Json) (renderedResult : List Char)
    (persistence : ToolResultPersistence) : Except String (Option PersistedToolResult) :=
  match persistence with
  | .off => .ok none
  | .on =>
    match resultValue with
    | .str text => (store.persistText sessionKey callId text).map some
    | _ => (store.persist sessionKey callId renderedResult).map some

/-- The copy of a sanitized result, if it has to be truncated. -/
def truncatedCopy (result : List Char) (maxBytes : ℕ) (truncation : Truncation)
    (preservePrefix : ℕ) : Option (Option (List Char)) :=
  match truncation with
  | .off => some none
  | .standard =>
    if utf8Len result ≤ maxBytes then some none
    else (truncateAtCharBoundary result maxBytes).map some
  | .end_ =>
    if utf8Len result ≤ maxBytes then some none
    else (truncateEndAtCharBoundary result maxBytes preservePrefix).map some

/-- The result is persisted before its copy is made. -/
def persistAndTruncate (sessionKey callId : String) (resultValue : Json) (maxBytes : ℕ)
    (truncation : Truncation) (persistence : ToolResultPersistence) (preservePrefix : ℕ) :
    Option (Except String (List Char)) :=
  match renderResult toStringPretty resultValue with
  | .error e => some (.error e)
  | .ok raw =>
    match persistResult store sessionKey callId resultValue raw persistence with
    | .error e => some (.error e)
    | .ok persisted => do
        let result ← sanitizeToolResult raw
        match ← truncatedCopy result maxBytes truncation preservePrefix with
        | none => some (.ok result)
        | some kept =>
          match persisted with
          | some persisted => some (.ok (kept ++ fullOutputPointer persisted))
          | none =>
            some (.error
              "tool result persistence cannot be disabled when truncation is required")

end

end Chelix.Agents
