import Chelix.Library.Stripping
import Chelix.Library.Text

/-!
# The response sanitizer

Internal tags and control tokens that a model leaks are stripped from its responses, by passes
that each work on what the pass before left.  Positions count characters; a slice that ends before
it begins gives `none`.
-/

namespace Chelix.Agents

open Library

/-- The internal tags that are stripped. -/
def internalTags : List (List Char) :=
  ["thinking", "think", "reflection", "inner_monologue", "scratchpad", "reasoning", "analysis",
    "self_reflection", "meta", "internal_thought", "function_call", "tool_use", "invoke",
    "tool_calls"].map String.toList

/-- The tokens that are stripped on their own. -/
def standalonePipeTokens : List (List Char) :=
  ["<|eot_id|>", "<|end|>", "<|im_end|>", "<|im_start|>", "<|begin_of_text|>", "<|end_of_text|>",
    "<|python_tag|>", "<|eom_id|>", "<|start_header_id|>", "<|end_header_id|>"].map String.toList

/-- The capitalized variants that are not in the list of tags. -/
def reasoningTags : List (List Char) :=
  ["Thinking", "Reflection", "Reasoning", "Analysis"].map String.toList

/-! ## Tags and tokens -/

def openExact (tag : List Char) : List Char := '<' :: (tag ++ ['>'])

def openWithSpace (tag : List Char) : List Char := '<' :: (tag ++ [' '])

def closeTag (tag : List Char) : List Char := '<' :: '/' :: (tag ++ ['>'])

def openPipe (tag : List Char) : List Char := '<' :: '|' :: (tag ++ ['|', '>'])

def closePipe (tag : List Char) : List Char := '<' :: '|' :: '/' :: (tag ++ ['|', '>'])

/-- The earlier of two matches. -/
def earliest : Option ℕ → Option ℕ → Option ℕ
  | some a, some b => some (min a b)
  | some a, none => some a
  | none, some b => some b
  | none, none => none

/-- The next element of a tag, or its opening if it is not closed; an opening that does not end is
kept with everything behind it. -/
def nextXmlTag (tag rest : List Char) : Option (ℕ × Option ℕ) :=
  match earliest (find (openExact tag) rest) (find (openWithSpace tag) rest) with
  | none => none
  | some start =>
    match find ['>'] (rest.drop start) with
    | none => none
    | some gtPos =>
      match find (closeTag tag) (rest.drop (start + gtPos + 1)) with
      | some closePos =>
        some (start, some (start + gtPos + 1 + closePos + (closeTag tag).length))
      | none => some (start, none)

def stripXmlTag (text tag : List Char) : List Char := strip (nextXmlTag tag) text

/-- The next pair of pipe tokens of a tag. -/
def nextPipeTag (tag rest : List Char) : Option (ℕ × Option ℕ) :=
  match find (openPipe tag) rest with
  | none => none
  | some start =>
    match find (closePipe tag) (rest.drop (start + (openPipe tag).length)) with
    | some closePos =>
      some (start, some (start + (openPipe tag).length + closePos + (closePipe tag).length))
    | none => some (start, none)

def stripPipeTag (text tag : List Char) : List Char := strip (nextPipeTag tag) text

def stripInternalTags (text : List Char) : List Char :=
  internalTags.foldl (fun result tag => stripPipeTag (stripXmlTag result tag) tag) text

def nextToken (token rest : List Char) : Option (ℕ × Option ℕ) :=
  (find token rest).map fun start => (start, some (start + token.length))

/-- Every match of a token is replaced by nothing. -/
def removeToken (text token : List Char) : List Char := strip (nextToken token) text

def stripStandalonePipeTokens (text : List Char) : List Char :=
  standalonePipeTokens.foldl removeToken text

/-! ## Trailing stop tokens -/

def isStopChar (c : Char) : Bool := c.isAlphanum || c = '_' || c = '-'

/-- Where the stop token at the end of a text begins.  The content of the last token is sliced
before it is looked at. -/
def trailingStop (trimmed : List Char) : Option (Option ℕ) :=
  match rfind "<|".toList trimmed with
  | none => some none
  | some start =>
    let candidate := trimmed.drop start
    match find "|>".toList candidate with
    | none => some none
    | some close =>
      if close < 2 then none
      else
        let tokenContent := (candidate.take close).drop 2
        if close + 2 = candidate.length ∧ tokenContent ≠ [] ∧ tokenContent.all isStopChar then
          some (some start)
        else some none

/-- The loop over stacked stop tokens.  Each turn shortens the text. -/
def stripTrailingFrom : ℕ → List Char → Option (List Char)
  | 0, _ => none
  | fuel + 1, result =>
    match trailingStop (trimEnd result) with
    | none => none
    | some none => some result
    | some (some start) => stripTrailingFrom fuel ((trimEnd result).take start)

def stripTrailingStopTokens (text : List Char) : Option (List Char) :=
  stripTrailingFrom (text.length + 1) text

/-! ## The chain -/

def stripReasoningPatterns (text : List Char) : List Char := reasoningTags.foldl stripXmlTag text

/-- All passes, one after another, and the text is trimmed. -/
def cleanResponse (text : List Char) : Option (List Char) :=
  (stripTrailingStopTokens (stripStandalonePipeTokens (stripInternalTags text))).map fun result =>
    trimText (stripReasoningPatterns result)

example : cleanResponse "a<thinking>b</thinking>c <|foo|>".toList = some "ac".toList := by
  decide +kernel

end Chelix.Agents
