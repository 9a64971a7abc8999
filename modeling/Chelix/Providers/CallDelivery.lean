import Chelix.Providers.ChatCalls
import Chelix.Providers.ResponsesCalls

/-!
# Every call is handed on once

What a provider says of its calls is clear if no call is opened twice or in the slot of another,
and every part of the arguments goes to an open call whose final text was not announced.  Both
adapters then hand every call on once; neither checks what is said.

* **`calls_delivered`**: for every list of data lines that is clear, a stream that ends without
  an error delivers the calls of the ledger.
-/

namespace Chelix.Providers

open Chelix.Agents.Model Chelix.Common Chelix.Library

/-- **Calls are delivered once**: the calls that the data lines speak of are those the events
start, fill and complete. -/
theorem calls_delivered (parse : String → Except String Json) (ending : StreamEnd)
    (lines : List String) (segmentId : ProviderSegmentId) :
    (Ledger.empty.AllClear (chatCalls parse lines) →
      ¬ HasError (chatStream parse ending lines (Chat.new segmentId)).events →
      DeliversOnce (Ledger.empty.steps (chatCalls parse lines)).calls
        (chatStream parse ending lines (Chat.new segmentId)).events) ∧
    (Ledger.empty.AllClear (responsesCalls parse lines) →
      ¬ HasError (responsesStream parse ending lines (Responses.new segmentId)).events →
      DeliversOnce (Ledger.empty.steps (responsesCalls parse lines)).calls
        (responsesStream parse ending lines (Responses.new segmentId)).events) := by
  constructor
  · intro hclear hok
    exact ChatFollows.run parse ending lines (ChatFollows.new segmentId) hclear hok
  · intro hclear hok
    exact ResponsesFollows.run parse ending lines (ResponsesFollows.new segmentId) hclear hok

/-- A reader of the texts of some values. -/
def readTexts (values : List Json) (data : String) : Except String Json :=
  match values.find? fun value => value.toText = data with
  | some value => .ok value
  | none => .error "expected value at line 1 column 1"

/-- An event of Chat Completions with one part of a call and a finish reason. -/
def chatPart (id name arguments : Json) (finish : Json) : Json :=
  .obj [("choices", .arr [.obj [
    ("delta", .obj [("tool_calls", .arr [.obj [("index", .num (.posInt 0)), ("id", id),
      ("function", .obj [("name", name), ("arguments", arguments)])]])]),
    ("finish_reason", finish)]])]

/-- The call that a chat opens and fills in two parts. -/
def clearChat : List Json :=
  [chatPart (.str "call_1") (.str "read") (.str "\x7b") .null,
    chatPart .null .null (.str "\x7d") (.str "tool_calls")]

/-- The same with the identity and the name repeated in every part. -/
def repeatingChat : List Json :=
  [chatPart (.str "call_1") (.str "read") (.str "\x7b") .null,
    chatPart (.str "call_1") (.str "read") (.str "\x7d") (.str "tool_calls")]

def callItem (id : String) : Json :=
  .obj [("type", .str "function_call"), ("call_id", .str id), ("name", .str "read"),
    ("arguments", .str "\x7b\x7d")]

def itemAdded (id : String) (slot : ℕ) : Json :=
  .obj [("type", .str "response.output_item.added"), ("output_index", .num (.posInt slot)),
    ("item", callItem id)]

def completedWith (ids : List String) : Json :=
  .obj [("type", .str "response.completed"),
    ("response", .obj [("output", .arr (ids.map callItem))])]

/-- Two calls of a response in slots of their own. -/
def clearResponse : List Json :=
  [itemAdded "call_1" 0, itemAdded "call_2" 1, completedWith ["call_1", "call_2"]]

/-- Two calls that share a slot. -/
def sharingResponse : List Json :=
  [itemAdded "call_1" 0, itemAdded "call_2" 0, completedWith ["call_1", "call_2"]]

theorem calls_delivered_clear :
    DeliversOnce [⟨"call_1", 0, ["\x7b", "\x7d"], none⟩]
      (chatStream (readTexts clearChat) .eof (clearChat.map Json.toText) (Chat.new "s")).events ∧
    DeliversOnce [⟨"call_1", 0, [], some "\x7b\x7d"⟩, ⟨"call_2", 1, [], some "\x7b\x7d"⟩]
      (responsesStream (readTexts clearResponse) .eof (clearResponse.map Json.toText)
        (Responses.new "s")).events := by
  have hchat : (Ledger.empty.steps (chatCalls (readTexts clearChat)
      (clearChat.map Json.toText))).calls = [⟨"call_1", 0, ["\x7b", "\x7d"], none⟩] := by
    decide
  have hresponse : (Ledger.empty.steps (responsesCalls (readTexts clearResponse)
      (clearResponse.map Json.toText))).calls =
      [⟨"call_1", 0, [], some "\x7b\x7d"⟩, ⟨"call_2", 1, [], some "\x7b\x7d"⟩] := by
    decide +kernel
  rw [← hchat, ← hresponse]
  exact ⟨(calls_delivered (readTexts clearChat) .eof (clearChat.map Json.toText) "s").1
      (by decide +kernel) (by decide +kernel),
    (calls_delivered (readTexts clearResponse) .eof (clearResponse.map Json.toText) "s").2
      (by decide +kernel) (by decide +kernel)⟩

/-- Neither stream reports an error; the one starts its call twice, the other two calls in one
slot. -/
theorem calls_started_twice :
    let chat := (chatStream (readTexts repeatingChat) .eof (repeatingChat.map Json.toText)
      (Chat.new "s")).events
    let responses := (responsesStream (readTexts sharingResponse) .eof
      (sharingResponse.map Json.toText) (Responses.new "s")).events
    (¬ HasError chat ∧ ∀ calls, ¬ DeliversOnce calls chat) ∧
      ¬ HasError responses ∧ ∀ calls, ¬ DeliversOnce calls responses := by
  refine ⟨⟨by decide +kernel, fun calls h => ?_⟩, by decide +kernel, fun calls h => ?_⟩
  · exact absurd h.starts_nodup.1 (by decide +kernel)
  · exact absurd h.starts_nodup.2 (by decide +kernel)

end Chelix.Providers
