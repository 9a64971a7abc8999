import Chelix.Agents.JsonRepair
import Chelix.Library.Loop
import Chelix.Library.Search
import Chelix.Library.Spans
import Chelix.Library.Text

/-!
# Tool calls in text

A model without native tool calls writes them in its text: as JSON in a fence, in three XML
shapes, or as bare JSON.  Each shape has a collector, which walks over the text; of the blocks
that are found, in the order of their starts, those that overlap one before them are dropped.

Positions are counted in characters; all of them are at the ends of what was searched for.
-/

namespace Chelix.Agents

open Chelix.Library

/-- A call that was found in a text. -/
structure TextToolCall where
  name : String
  arguments : Json
  deriving DecidableEq

structure ParsedBlock where
  toolCall : TextToolCall
  start : ℕ
  stop : ℕ
  deriving DecidableEq

def isValidToolName (toolName : List Char) : Bool :=
  !toolName.isEmpty && toolName.all fun c => c.isAlphanum || c = '_' || c = '-'

def newTextToolCall (name : List Char) (arguments : List (String × Json)) : TextToolCall where
  name := String.ofList name
  arguments := .obj arguments

/-- A field of an object that is set: its place is kept if it is there. -/
def insertField (fields : List (String × Json)) (name : String) (value : Json) :
    List (String × Json) :=
  if fields.any fun field => field.1 = name then
    fields.map fun field => if field.1 = name then (name, value) else field
  else fields ++ [(name, value)]

/-! ## Code -/

/-- How far the code ranges of a text are known. -/
structure RangeScan where
  searchFrom : ℕ
  ranges : List (ℕ × ℕ)

/-- A code range ends with the next run of as many backticks as it begins with. -/
def codeRangeEnd (text : List Char) (start : ℕ) : ℕ :=
  let delimiter := (text.drop start).takeWhile (· = '\x60')
  let afterOpen := start + delimiter.length
  match find delimiter (text.drop afterOpen) with
  | some endRel => afterOpen + endRel + delimiter.length
  | none => text.length

def codeRangeStep (text : List Char) (s : RangeScan) : Option RangeScan :=
  match findFrom ['\x60'] text s.searchFrom with
  | none => none
  | some start => some {
      searchFrom := codeRangeEnd text start
      ranges := s.ranges ++ [(start, codeRangeEnd text start)] }

def markdownCodeRanges (text : List Char) : List (ℕ × ℕ) :=
  (loop (codeRangeStep text) text.length { searchFrom := 0, ranges := [] }).ranges

def isInsideRanges (pos : ℕ) (ranges : List (ℕ × ℕ)) : Bool :=
  ranges.any fun range => range.1 ≤ pos && pos < range.2

/-- How far a collector has read a text, and what it has found. -/
structure BlockScan where
  searchFrom : ℕ
  blocks : List ParsedBlock

section Collectors

variable (fromStr : FromStr)

/-- A call written as a JSON object. -/
def tryParseToolJson (json : List Char) : Option TextToolCall := do
  let parsed ←
    match fromStr json with
    | some value => some value
    | none => repairJson fromStr json
  let toolName ← (parsed.index "tool").asStr
  return { name := toolName, arguments := (parsed.get "arguments").getD (.obj []) }

def parseParamValue (valueRaw : List Char) : Json :=
  (fromStr valueRaw).getD (.str (String.ofList valueRaw))

/-! ## Fences -/

def fenceMarker : List Char := "```tool_call".toList

def fence : List Char := "```".toList

def fencedStep (text : List Char) (s : BlockScan) : Option BlockScan :=
  match findFrom fenceMarker text s.searchFrom with
  | none => none
  | some absStart =>
    let afterMarker := absStart + fenceMarker.length
    let rest := text.drop afterMarker
    match find fence rest with
    | none => none
    | some endRel =>
      let json := trimText (rest.take endRel)
      let absEnd := afterMarker + endRel + 3
      match tryParseToolJson fromStr json with
      | some parsed => some {
          searchFrom := absEnd
          blocks := s.blocks ++ [{ toolCall := parsed, start := absStart, stop := absEnd }] }
      | none => some { s with searchFrom := absEnd }

def collectFencedBlocks (text : List Char) (blocks : List ParsedBlock) : List ParsedBlock :=
  (loop (fencedStep fromStr text) text.length { searchFrom := 0, blocks }).blocks

/-! ## Arguments in tags -/

/-- How far the arguments of a call are read. -/
structure ArgScan where
  cursor : ℕ
  args : List (String × Json)
  found : Bool

def noArgs (cursor : ℕ) : ArgScan where
  cursor
  args := []
  found := false

/-! ### Functions -/

def functionMarker : List Char := "<function=".toList

def parameterStep (body : List Char) (s : ArgScan) : Option ArgScan :=
  match findFrom "<parameter=".toList body s.cursor with
  | none => none
  | some paramStart =>
    let afterParamMarker := paramStart + "<parameter=".toList.length
    let paramRest := body.drop afterParamMarker
    match find ['>'] paramRest with
    | none => none
    | some paramNameEnd =>
      let paramName := trimText (paramRest.take paramNameEnd)
      let valueStart := afterParamMarker + paramNameEnd + 1
      if ¬isValidToolName paramName then some { s with cursor := valueStart }
      else
        let valueRest := body.drop valueStart
        match find "</parameter>".toList valueRest with
        | none => none
        | some valueEndRel =>
          let valueRaw := trimText (valueRest.take valueEndRel)
          some {
            cursor := valueStart + valueEndRel + "</parameter>".toList.length
            args := insertField s.args (String.ofList paramName)
              (parseParamValue fromStr valueRaw)
            found := true }

/-- The end of a block: a closing tag of a wrapper belongs to it. -/
def wrapperEnd (text : List Char) (absEnd : ℕ) : ℕ :=
  match stripPrefix "</tool_call>".toList (trimStart (text.drop absEnd)) with
  | some rest => text.length - rest.length
  | none => absEnd

def functionStep (text : List Char) (ranges : List (ℕ × ℕ)) (s : BlockScan) : Option BlockScan :=
  match findFrom functionMarker text s.searchFrom with
  | none => none
  | some absStart =>
    let afterMarker := absStart + functionMarker.length
    if isInsideRanges absStart ranges then some { s with searchFrom := afterMarker }
    else
      let rest := text.drop afterMarker
      match find ['>'] rest with
      | none => none
      | some openEndRel =>
        let toolName := trimText (rest.take openEndRel)
        if ¬isValidToolName toolName then some { s with searchFrom := afterMarker }
        else
          let bodyStart := afterMarker + openEndRel + 1
          let afterOpen := text.drop bodyStart
          match find "</function>".toList afterOpen with
          | none => some { s with searchFrom := bodyStart }
          | some bodyEndRel =>
            let body := afterOpen.take bodyEndRel
            let absEnd := bodyStart + bodyEndRel + "</function>".toList.length
            let finalEnd := wrapperEnd text absEnd
            let read := loop (parameterStep fromStr body) body.length (noArgs 0)
            let block : ParsedBlock := {
              toolCall := newTextToolCall toolName read.args
              start := absStart
              stop := finalEnd }
            some {
              searchFrom := finalEnd
              blocks := if read.found then s.blocks ++ [block] else s.blocks }

def collectFunctionBlocks (text : List Char) (blocks : List ParsedBlock) (ranges : List (ℕ × ℕ)) :
    List ParsedBlock :=
  (loop (functionStep fromStr text ranges) text.length { searchFrom := 0, blocks }).blocks

/-! ### Invocations -/

def extractXmlAttr (attrStr attrName : List Char) : Option (List Char) := do
  let needle := attrName ++ "=\"".toList
  let start ← find needle attrStr
  let rest := attrStr.drop (start + needle.length)
  let stop ← find ['"'] rest
  return rest.take stop

def invokeMarker : List Char := "<invoke".toList

def argStep (body : List Char) (s : ArgScan) : Option ArgScan :=
  match findFrom "<arg".toList body s.cursor with
  | none => none
  | some argStart =>
    let afterArgTag := argStart + "<arg".toList.length
    let argRest := body.drop afterArgTag
    match find ['>'] argRest with
    | none => none
    | some argGt =>
      let valueStart := afterArgTag + argGt + 1
      match extractXmlAttr (argRest.take argGt) "name".toList with
      | none => some { s with cursor := valueStart }
      | some paramName =>
        if paramName.isEmpty then some { s with cursor := valueStart }
        else
          let valueRest := body.drop valueStart
          match find "</arg>".toList valueRest with
          | none => none
          | some valueEndRel =>
            let valueRaw := trimText (valueRest.take valueEndRel)
            some {
              cursor := valueStart + valueEndRel + "</arg>".toList.length
              args := insertField s.args (String.ofList paramName)
                (parseParamValue fromStr valueRaw)
              found := true }

def invokeStep (text : List Char) (ranges : List (ℕ × ℕ)) (s : BlockScan) : Option BlockScan :=
  match findFrom invokeMarker text s.searchFrom with
  | none => none
  | some absStart =>
    let afterMarker := absStart + invokeMarker.length
    if isInsideRanges absStart ranges then some { s with searchFrom := afterMarker }
    else
      let rest := text.drop afterMarker
      match find ['>'] rest with
      | none => none
      | some openEndRel =>
        let bodyStart := afterMarker + openEndRel + 1
        match extractXmlAttr (rest.take openEndRel) "name".toList with
        | none => some { s with searchFrom := bodyStart }
        | some toolName =>
          if ¬isValidToolName toolName then some { s with searchFrom := bodyStart }
          else
            let afterOpen := text.drop bodyStart
            match find "</invoke>".toList afterOpen with
            | none => some { s with searchFrom := bodyStart }
            | some bodyEndRel =>
              let body := afterOpen.take bodyEndRel
              let absEnd := bodyStart + bodyEndRel + "</invoke>".toList.length
              let read := loop (argStep fromStr body) body.length (noArgs 0)
              let block : ParsedBlock := {
                toolCall := newTextToolCall toolName read.args
                start := absStart
                stop := absEnd }
              some {
                searchFrom := absEnd
                blocks := if read.found then s.blocks ++ [block] else s.blocks }

def collectInvokeBlocks (text : List Char) (blocks : List ParsedBlock) (ranges : List (ℕ × ℕ)) :
    List ParsedBlock :=
  (loop (invokeStep fromStr text ranges) text.length { searchFrom := 0, blocks }).blocks

/-! ### Keys and values -/

def zhipuOpen : List Char := "<tool_call>".toList

def argKeyStep (inner : List Char) (s : ArgScan) : Option ArgScan :=
  match findFrom "<arg_key>".toList inner s.cursor with
  | none => none
  | some keyStart =>
    let keyContentStart := keyStart + "<arg_key>".toList.length
    match find "</arg_key>".toList (inner.drop keyContentStart) with
    | none => none
    | some keyEnd =>
      let key := trimText ((inner.drop keyContentStart).take keyEnd)
      let afterKey := keyContentStart + keyEnd + "</arg_key>".toList.length
      match findFrom "<arg_value>".toList inner afterKey with
      | none => none
      | some valStart =>
        let valContentStart := valStart + "<arg_value>".toList.length
        match find "</arg_value>".toList (inner.drop valContentStart) with
        | none => none
        | some valEnd =>
          let val := (inner.drop valContentStart).take valEnd
          let cursor := valContentStart + valEnd + "</arg_value>".toList.length
          if key.isEmpty then some { s with cursor }
          else some {
            cursor
            args := insertField s.args (String.ofList key) (parseParamValue fromStr val)
            found := true }

def zhipuStep (text : List Char) (ranges : List (ℕ × ℕ)) (s : BlockScan) : Option BlockScan :=
  match findFrom zhipuOpen text s.searchFrom with
  | none => none
  | some absStart =>
    let contentStart := absStart + zhipuOpen.length
    if isInsideRanges absStart ranges then some { s with searchFrom := contentStart }
    else
      match find "</tool_call>".toList (text.drop contentStart) with
      | none => none
      | some relEnd =>
        let absEnd := contentStart + relEnd + "</tool_call>".toList.length
        let inner := (text.drop contentStart).take relEnd
        if (trimStart inner).head? = some '{' then some { s with searchFrom := absEnd }
        else
          let nameEnd := (find "<arg_key>".toList inner).getD inner.length
          let toolName := trimText (inner.take nameEnd)
          if ¬isValidToolName toolName then some { s with searchFrom := contentStart }
          else if nameEnd = inner.length then some { s with searchFrom := absEnd }
          else
            let read := loop (argKeyStep fromStr inner) inner.length (noArgs nameEnd)
            let block : ParsedBlock := {
              toolCall := newTextToolCall toolName read.args
              start := absStart
              stop := absEnd }
            some {
              searchFrom := absEnd
              blocks := if read.found then s.blocks ++ [block] else s.blocks }

def collectZhipuBlocks (text : List Char) (blocks : List ParsedBlock) (ranges : List (ℕ × ℕ)) :
    List ParsedBlock :=
  (loop (zhipuStep fromStr text ranges) text.length { searchFrom := 0, blocks }).blocks

/-! ## Bare JSON -/

def toolKey : List Char := "\"tool\"".toList

/-- The end of the object that a text begins with. -/
def objectEnd : Scan → (depth : ℤ) → (i : ℕ) → List Char → Option ℕ
  | _, _, _, [] => none
  | .code, depth, i, ch :: chars =>
    if ch = '{' then objectEnd .code (depth + 1) (i + 1) chars
    else if ch = '}' then
      if depth - 1 = 0 then some (i + 1) else objectEnd .code (depth - 1) (i + 1) chars
    else objectEnd (Scan.code.next ch) depth (i + 1) chars
  | scan, depth, i, ch :: chars => objectEnd (scan.next ch) depth (i + 1) chars

def bareObjectEnd (text : List Char) (objStart : ℕ) : ℕ :=
  match objectEnd .code 0 0 (text.drop objStart) with
  | some i => objStart + i
  | none => text.length

def bareJsonStep (text : List Char) (ranges : List (ℕ × ℕ)) (s : BlockScan) : Option BlockScan :=
  match findFrom toolKey text s.searchFrom with
  | none => none
  | some absHit =>
    let skipped : BlockScan := { s with searchFrom := absHit + toolKey.length }
    if isInsideRanges absHit ranges then some skipped
    else
      match rfind ['{'] (text.take absHit) with
      | none => some skipped
      | some objStart =>
        if s.blocks.any fun b => b.start ≤ objStart && objStart < b.stop then some skipped
        else
          let absEnd := bareObjectEnd text objStart
          match tryParseToolJson fromStr ((text.drop objStart).take (absEnd - objStart)) with
          | some toolCall => some {
              searchFrom := absEnd
              blocks := s.blocks ++ [{ toolCall, start := objStart, stop := absEnd }] }
          | none => some skipped

/-- An object that ends before the key takes the search back, so that a key may be met again. -/
def collectBareJsonBlocks (text : List Char) (blocks : List ParsedBlock) (ranges : List (ℕ × ℕ)) :
    List ParsedBlock :=
  (loop (bareJsonStep fromStr text ranges) ((text.length + 1) * (text.length + 1))
    { searchFrom := 0, blocks }).blocks

/-! ## The calls of a text -/

/-- A text without the tags that a wrapper leaves at its ends. -/
def stripWrapperPrefix (value : List Char) : Option (List Char) :=
  match stripPrefix "<tool_call>".toList value with
  | some rest => some (trimText rest)
  | none => (stripPrefix "</tool_call>".toList value).map trimText

/-- What comes before a final part of a list. -/
def stripSuffix (last : List Char) (text : List Char) : Option (List Char) :=
  if last.isSuffixOf text then some (text.take (text.length - last.length)) else none

def stripWrapperSuffix (value : List Char) : Option (List Char) :=
  match stripSuffix "<tool_call>".toList value with
  | some rest => some (trimText rest)
  | none => (stripSuffix "</tool_call>".toList value).map trimText

def trimToolCallWrappers (text : List Char) : List Char :=
  let value := trimText text
  let value := loop stripWrapperPrefix value.length value
  loop stripWrapperSuffix value.length value

/-- All blocks, in the order in which the collectors find them. -/
def collectBlocks (text : List Char) : List ParsedBlock :=
  let ranges := markdownCodeRanges text
  let fenced := collectFencedBlocks fromStr text []
  let functions := collectFunctionBlocks fromStr text fenced ranges
  let invokes := collectInvokeBlocks fromStr text functions ranges
  let zhipu := collectZhipuBlocks fromStr text invokes ranges
  collectBareJsonBlocks fromStr text zhipu ranges

/-- The blocks that are left when those that overlap one before them are dropped. -/
def mergedBlocks (text : List Char) : List ParsedBlock :=
  keepDisjoint ParsedBlock.start ParsedBlock.stop
    (sortByKey ParsedBlock.start (collectBlocks fromStr text))

/-- What is between the blocks. -/
def remainingParts (text : List Char) : (cursor : ℕ) → List ParsedBlock → List (List Char)
  | cursor, [] => [trimToolCallWrappers (trimText (text.drop cursor))]
  | cursor, block :: blocks =>
    trimToolCallWrappers (trimText ((text.drop cursor).take (block.start - cursor))) ::
      remainingParts text block.stop blocks

def parseToolCallsFromText (text : List Char) : List TextToolCall × Option (List Char) :=
  if collectBlocks fromStr text = [] then ([], some text)
  else
    let merged := mergedBlocks fromStr text
    let parts := (remainingParts text 0 merged).filter fun part => part ≠ []
    (merged.map ParsedBlock.toolCall,
      if parts = [] then none else some (['\n'].intercalate parts))

end Collectors

end Chelix.Agents
