import Chelix.Sessions.HistoryPages
import Mathlib.Order.Lattice.Nat

/-!
# Tools that reach other sessions

An agent lists, searches, reads and messages other sessions with four tools.  A policy says which
sessions it may reach.

The search visits the sessions in the order of a hash map, which is any order.
-/

namespace Chelix.Tools

open Chelix.Library Chelix.Sessions

/-! ## Policy -/

structure SessionAccessPolicy where
  /-- Only the sessions whose keys start so are visible. -/
  keyPrefix : Option String
  /-- The keys of more sessions. -/
  allowedKeys : List String
  canSend : Bool
  crossAgent : Bool

namespace SessionAccessPolicy

variable (policy : SessionAccessPolicy)

def canAccess (key : String) : Bool :=
  if policy.allowedKeys.any (· = key) then true
  else
    match policy.keyPrefix with
    | some lead => lead.toList.isPrefixOf key.toList
    | none => true

/-- The policy has a prefix, or a list of keys. -/
def Restricts : Prop := policy.keyPrefix.isSome = true ∨ policy.allowedKeys ≠ []

/-- The key is in the list, or starts with the prefix. -/
def Permits (key : String) : Prop :=
  key ∈ policy.allowedKeys ∨ ∃ lead ∈ policy.keyPrefix, lead.toList <+: key.toList

end SessionAccessPolicy

/-- The policy of a tool allows a key. -/
def allowed (policy : Option SessionAccessPolicy) (key : String) : Bool :=
  policy.all fun policy => policy.canAccess key

/-! ## Sessions -/

structure SessionEntry where
  id : String
  key : String
  label : Option String
  model : String
  reasoningEffort : String
  createdAt : ℕ
  updatedAt : ℕ
  messageCount : ℕ
  projectId : Option String
  agentId : Option String
  version : ℕ
  deriving DecidableEq

/-- The metadata of the sessions, in the order of the table, and their histories as they are
opened. -/
structure SessionStores where
  rows : List SessionEntry
  nodup : (rows.map SessionEntry.key).Nodup
  histories : String → Except Sessions.Error HistorySession

/-- The order of the sidebar: the newest first. -/
def sidebarOrder (entry : SessionEntry) : ℕᵒᵈ ×ₗ ℕᵒᵈ ×ₗ String :=
  toLex (OrderDual.toDual entry.updatedAt, toLex (OrderDual.toDual entry.createdAt, entry.key))

def SessionStores.list (stores : SessionStores) : List SessionEntry :=
  sortByKey sidebarOrder stores.rows

def SessionStores.get (stores : SessionStores) (key : String) : Option SessionEntry :=
  stores.rows.find? fun entry => entry.key = key

/-- How a history is shown and searched. -/
structure HistoryText where
  toLowercase : String → String
  publicValue : UiSnapshot → Except Sessions.Error Json
  searchText : UiSnapshot → Except Sessions.Error String
  searchSnippet : String → String → Option String
  display : Sessions.Error → String

section Params

def strParam (params : Json) (name : String) : Option String :=
  (((params.get name).bind Json.asStr).map trim).filter fun value => !value.isEmpty

def requireStr (params : Json) (name : String) : Except String String :=
  match strParam params name with
  | some value => .ok value
  | none => .error ("missing required parameter: " ++ name)

def u64Param (params : Json) (name : String) (fallback : ℕ) : ℕ :=
  ((params.get name).bind Json.asNat).getD fallback

end Params

/-! ## Histories -/

section Histories

variable (text : HistoryText)

/-- The latest messages of an opened session. -/
def latestPage (session : HistorySession) (limit : ℕ) : Except Sessions.Error UiHistoryPage :=
  match session.state.failure with
  | some failure => .error (.message failure)
  | none => do
      limitColumn limit
      return assemblePage session.state ⟨none, none, true, none⟩ limit
        (storedPage session.stored ⟨none, none, true, none⟩ limit)

structure UiSearchHit where
  sessionKey : String
  generation : UiGeneration
  messageId : UiMessageId
  position : ℕ
  snippet : String
  role : String

/-- The first of the snapshots that has the text. -/
def firstHit (key : String) (generation : UiGeneration) (query : String) :
    List UiSnapshot → Except Sessions.Error (Option UiSearchHit)
  | [] => .ok none
  | snapshot :: rest => do
      match text.searchSnippet (← text.searchText snapshot) query with
      | none => firstHit key generation query rest
      | some snippet =>
        match ((← text.publicValue snapshot).get "role").bind Json.asStr with
        | none => throw (.message "semantic snapshot has no role")
        | some role =>
          pure (some
            { sessionKey := key, generation, messageId := snapshot.id
              position := snapshot.position, snippet, role })

/-- The indexed text of a stored entry has the query. -/
def indexed (query : String) (entry : UiEntry) : Bool :=
  match text.searchText entry.snapshot with
  | .ok found => decide (query.toList <:+: (text.toLowercase found).toList)
  | .error _ => false

/-- The search in one session: the stored entries, and over them those in memory. -/
def searchSession (key : String) (session : HistorySession) (query : String) :
    Except Sessions.Error (Option UiSearchHit) :=
  match session.state.failure with
  | some failure => .error (.message failure)
  | none =>
    let held := session.state.entries.toList.map Prod.snd
    let rows := (sortByKey (fun entry : UiEntry => entry.snapshot.position)
      ((session.stored.toList.map Prod.snd).filter (indexed text query))).take (held.length + 1)
    firstHit text key session.state.generation query
      (sortByKey (fun snapshot : UiSnapshot => snapshot.position) (mergeEntries rows held))

/-- The search in the sessions, up to a number of hits. -/
def searchKeys (histories : String → Except Sessions.Error HistorySession) (query : String)
    (limit : ℕ) : List String → List UiSearchHit → Except Sessions.Error (List UiSearchHit)
  | [], hits => .ok hits
  | key :: keys, hits =>
    match histories key with
    | .error (.historyWithoutJournal _) => searchKeys histories query limit keys hits
    | .error error => .error error
    | .ok session => do
        let found ← searchSession text key session query
        let hits := hits ++ found.toList
        if hits.length = limit then pure hits else searchKeys histories query limit keys hits

def searchHistories (histories : String → Except Sessions.Error HistorySession)
    (keys : List String) (query : String) (limit : ℕ) :
    Except Sessions.Error (List UiSearchHit) :=
  if (trim query).isEmpty ∨ limit = 0 then .ok []
  else searchKeys text histories (text.toLowercase query) limit keys []

end Histories

/-! ## Tools -/

section Tools

variable (text : HistoryText) (policy : Option SessionAccessPolicy) (stores : SessionStores)
  (params : Json)

structure ListAnswer where
  sessions : List SessionEntry
  count : ℕ

def matchesFilter (needle : Option String) (entry : SessionEntry) : Bool :=
  needle.all fun needle =>
    decide (needle.toList <:+: (text.toLowercase entry.key).toList) ||
      entry.label.any fun label => decide (needle.toList <:+: (text.toLowercase label).toList)

def sessionsList : ListAnswer :=
  let filter := (strParam params "filter").map text.toLowercase
  let limit := min (u64Param params "limit" 20) 100
  let sessions := (stores.list.filter fun entry =>
    allowed policy entry.key && matchesFilter text filter entry).take limit
  { sessions, count := sessions.length }

structure SearchResult where
  key : String
  label : Option String
  model : Option String
  projectId : Option String
  agentId : Option String
  createdAt : Option ℕ
  updatedAt : Option ℕ
  messageCount : Option ℕ
  snippet : String
  role : String
  messageId : UiMessageId
  generation : UiGeneration
  position : ℕ

structure SearchAnswer where
  query : String
  count : ℕ
  results : List SearchResult

def searchResult (hit : UiSearchHit) : SearchResult :=
  let entry := stores.get hit.sessionKey
  { key := hit.sessionKey
    label := entry.bind SessionEntry.label
    model := entry.map SessionEntry.model
    projectId := entry.bind SessionEntry.projectId
    agentId := entry.bind SessionEntry.agentId
    createdAt := entry.map SessionEntry.createdAt
    updatedAt := entry.map SessionEntry.updatedAt
    messageCount := entry.map SessionEntry.messageCount
    snippet := hit.snippet
    role := hit.role
    messageId := hit.messageId
    generation := hit.generation
    position := hit.position }

/-- The loop over the hits, which looks at the current session and at the policy once more. -/
def searchResults (current : Option String) (limit : ℕ) :
    List UiSearchHit → List SearchResult → List SearchResult
  | [], results => results
  | hit :: hits, results =>
    if limit ≤ results.length then results
    else if current = some hit.sessionKey then searchResults current limit hits results
    else if !allowed policy hit.sessionKey then searchResults current limit hits results
    else searchResults current limit hits (results ++ [searchResult stores hit])

/-- The sessions that are searched, in the order in which the map of the entries is visited. -/
def searchedKeys (current : Option String) (values : List SessionEntry) : List String :=
  (values.filter fun entry => decide (current ≠ some entry.key) && allowed policy entry.key).map
    SessionEntry.key

def currentSessionKey : Option String :=
  let excludeCurrent := (((params.get "exclude_current").or (params.get "excludeCurrent")).bind
    Json.asBool).getD true
  if excludeCurrent then strParam params "_session_key" else none

def sessionsSearch (values : List SessionEntry) : Except String SearchAnswer := do
  let query ← requireStr params "query"
  let limit := min (u64Param params "limit" 5) 20
  let current := currentSessionKey params
  match searchHistories text stores.histories (searchedKeys policy current values) query limit with
  | .error error =>
    throw ("failed to search sessions for '" ++ query ++ "': " ++ text.display error)
  | .ok hits =>
    let results := searchResults policy stores current limit hits []
    pure { query, count := results.length, results }

structure HistoryAnswer where
  key : String
  label : Option String
  messages : List Json
  totalMessages : ℕ
  offset : ℕ
  count : ℕ
  hasMore : Bool
  generation : UiGeneration
  revision : ℕ

def usizeMax : ℕ := 2 ^ 64 - 1

def historyAnswer (entry : SessionEntry) (limit offset : ℕ) (key : String) (page : UiHistoryPage) :
    Except String HistoryAnswer :=
  let stop := page.history.length - offset
  let start := stop - limit
  match ((page.history.take stop).drop start).mapM text.publicValue with
  | .error error => .error (text.display error)
  | .ok messages =>
    .ok
      { key, label := entry.label, messages
        totalMessages := page.totalMessages
        offset
        count := stop - start
        hasMore := decide (min (offset + messages.length) usizeMax < page.totalMessages)
        generation := page.generation
        revision := page.revision }

/-- The answer, and the sessions a page of which was read. -/
def sessionsHistory : Except String HistoryAnswer × List String :=
  match requireStr params "key" with
  | .error message => (.error message, [])
  | .ok key =>
    if !allowed policy key then (.error ("session access denied: " ++ key), [])
    else
      let limit := min (u64Param params "limit" 20) 100
      let offset := u64Param params "offset" 0
      match stores.get key with
      | none => (.error ("session not found: " ++ key), [])
      | some entry =>
        match (stores.histories key).bind fun session =>
            latestPage session (max (min (limit + offset) usizeMax) 1) with
        | .error error =>
          (.error ("failed to read session '" ++ key ++ "': " ++ text.display error), [key])
        | .ok page => (historyAnswer text entry limit offset key page, [key])

structure ModelOverride where
  model : String
  reasoningEffort : String

structure SessionsSendParams where
  key : String
  message : String
  waitForReply : Bool
  context : Option String
  modelOverride : Option ModelOverride

structure SendToSessionRequest where
  key : String
  message : String
  waitForReply : Bool
  modelOverride : Option ModelOverride

structure SendAnswer where
  key : String
  label : Option String
  waitForReply : Bool
  result : Json

/-- An agent as the sender badge needs it. -/
structure SenderAgent where
  name : String
  prependSenderBadge : Bool

def senderBadge (name : String) : String := "[From the \"" ++ name ++ "\" agent]\n\n"

def senderBadgePrefix (agentsConfig : Option (String → Option SenderAgent))
    (sender : Option String) : Except String String :=
  match sender, agentsConfig with
  | some sender, some agents =>
    match agents sender with
    | none => .error ("unknown sender agent '" ++ sender ++ "'")
    | some agent => .ok (if agent.prependSenderBadge then senderBadge agent.name else "")
  | _, _ => .ok ""

def sendMessage (badge : String) (sent : SessionsSendParams) : String :=
  match sent.context with
  | some context => badge ++ "[From: " ++ context ++ "]\n\n" ++ sent.message
  | none => if badge.isEmpty then sent.message else badge ++ sent.message

/-- The answer, and what was given to the send function. -/
def sessionsSend (parse : Json → Except String SessionsSendParams)
    (agentsConfig : Option (String → Option SenderAgent)) (sender : Option String)
    (sendFn : SendToSessionRequest → Except String Json) :
    Except String SendAnswer × List SendToSessionRequest :=
  match parse params with
  | .error message => (.error message, [])
  | .ok sent =>
    if !allowed policy sent.key then (.error ("session access denied: " ++ sent.key), [])
    else if policy.any fun policy => !policy.canSend then
      (.error "session policy denies sending messages", [])
    else
      match stores.get sent.key with
      | none => (.error ("session not found: " ++ sent.key), [])
      | some entry =>
        match senderBadgePrefix agentsConfig sender with
        | .error message => (.error message, [])
        | .ok badge =>
          let request : SendToSessionRequest :=
            { key := sent.key, message := sendMessage badge sent
              waitForReply := sent.waitForReply, modelOverride := sent.modelOverride }
          match sendFn request with
          | .error message => (.error message, [request])
          | .ok result =>
            (.ok { key := sent.key, label := entry.label
                   waitForReply := sent.waitForReply, result }, [request])

end Tools

end Chelix.Tools
