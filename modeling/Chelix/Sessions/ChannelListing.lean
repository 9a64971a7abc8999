import Chelix.Library.Json
import Chelix.Library.Wildcards

/-!
# Sessions of a channel

Sessions are listed by the text of their channel binding, which is JSON, with a `LIKE` pattern.
-/

namespace Chelix.Sessions

open Chelix.Library

/-! ## The operator -/

/-- A letter of a pattern stands for the letter in both cases, and an underscore for any letter. -/
def likeLetter (c a : Char) : Bool := c = '_' || c.toLower = a.toLower

def like (pattern text : List Char) : Bool := fits (fun c => c = '%') likeLetter pattern text

/-! ## Bindings -/

structure PersistedChannelBinding where
  channelType : List Char
  accountId : List Char
  chatId : List Char
  threadId : Option (List Char)
  deriving DecidableEq

def fieldText (key value : List Char) : List Char :=
  '"' :: (key ++ '"' :: ':' :: '"' :: (value.flatMap Json.escapeChar ++ ['"']))

def PersistedChannelBinding.toText (binding : PersistedChannelBinding) : List Char :=
  '\x7b' :: (fieldText "channel_type".toList binding.channelType ++
    ',' :: (fieldText "account_id".toList binding.accountId ++
    ',' :: (fieldText "chat_id".toList binding.chatId ++
    ((match binding.threadId with
      | none => []
      | some thread => ',' :: fieldText "thread_id".toList thread) ++ ['\x7d']))))

structure ChannelSessionRow where
  key : String
  createdAt : ℕ
  channelBinding : Option PersistedChannelBinding
  deriving DecidableEq

/-- Whether the text of the binding is an instance of a pattern; that of a session without binding
is not. -/
def ChannelSessionRow.isLike (row : ChannelSessionRow) (pattern : List Char) : Bool :=
  row.channelBinding.any fun binding => like pattern binding.toText

/-! ## Listings -/

/-- A field with a value as it is written into a pattern. -/
def patternPart (key value : List Char) : List Char :=
  '"' :: (key ++ '"' :: ':' :: '"' :: (value ++ ['"']))

def channelPattern (channelType accountId chatId : List Char) : List Char :=
  '%' :: (patternPart "channel_type".toList channelType ++
    '%' :: (patternPart "account_id".toList accountId ++
    '%' :: (patternPart "chat_id".toList chatId ++ ['%'])))

def accountPattern (channelType accountId : List Char) : List Char :=
  '%' :: (patternPart "channel_type".toList channelType ++
    '%' :: (patternPart "account_id".toList accountId ++ ['%']))

def listChannelSessions (rows : List ChannelSessionRow) (channelType accountId chatId : List Char) :
    List ChannelSessionRow :=
  sortByKey ChannelSessionRow.createdAt
    (rows.filter fun row => row.isLike (channelPattern channelType accountId chatId))

def listAccountSessions (rows : List ChannelSessionRow) (channelType accountId : List Char) :
    List ChannelSessionRow :=
  sortByKey ChannelSessionRow.createdAt
    (rows.filter fun row => row.isLike (accountPattern channelType accountId))

end Chelix.Sessions
