import Chelix.Library.Results
import Chelix.Tools.SessionsCommunicate

/-!
# What a session policy confines

A policy that has a key prefix, or a list of keys, permits some sessions.  The tools are to show,
read and message these only, and their answers are not to depend on any other session.

* **`access_confined`**: a policy that restricts anything confines the tools exactly if it has a
  prefix.  A list of keys alone is checked, but what is not in it is let through.
-/

namespace Chelix.Tools

open Chelix.Library Chelix.Sessions List

/-! ## The check -/

variable {key : String}

namespace SessionAccessPolicy

variable {policy : SessionAccessPolicy}

theorem canAccess_of_permits (h : policy.Permits key) :
    policy.canAccess key = true := by
  rw [canAccess]
  split
  · rfl
  · rename_i hlist
    rcases h with hmem | ⟨lead, hlead, hkey⟩
    · exact absurd (any_eq_true.mpr ⟨key, hmem, decide_eq_true rfl⟩) hlist
    · rw [Option.mem_def.mp hlead]
      exact isPrefixOf_iff_prefix.mpr hkey

theorem canAccess_iff (hpre : policy.keyPrefix.isSome = true) :
    policy.canAccess key = true ↔ policy.Permits key := by
  refine ⟨fun h => ?_, canAccess_of_permits⟩
  rw [canAccess] at h
  split at h
  · rename_i hlist
    obtain ⟨allowed, hmem, heq⟩ := any_eq_true.mp hlist
    exact .inl (of_decide_eq_true heq ▸ hmem)
  · obtain ⟨lead, hlead⟩ := Option.isSome_iff_exists.mp hpre
    rw [hlead] at h
    exact .inr ⟨lead, hlead, isPrefixOf_iff_prefix.mp h⟩

theorem canAccess_of_unscoped (hpre : policy.keyPrefix = none) (key : String) :
    policy.canAccess key = true := by
  rw [canAccess, hpre]
  split <;> rfl

end SessionAccessPolicy

/-! ## Confinement -/

variable {text : HistoryText} {policy : SessionAccessPolicy}

/-- The permitted sessions of two stores are the same. -/
structure Agree (policy : SessionAccessPolicy) (first second : SessionStores) : Prop where
  rows : first.rows.filter (fun entry => policy.canAccess entry.key) =
    second.rows.filter fun entry => policy.canAccess entry.key
  histories : ∀ key, policy.canAccess key = true → first.histories key = second.histories key

/-- What the tools do under a policy. -/
structure Confined (text : HistoryText) (policy : SessionAccessPolicy) : Prop where
  list : ∀ stores params, ∀ entry ∈ (sessionsList text (some policy) stores params).sessions,
    policy.Permits entry.key
  search : ∀ stores params (values : List SessionEntry) answer, values.Perm stores.list →
    sessionsSearch text (some policy) stores params values = .ok answer →
    ∀ result ∈ answer.results, policy.Permits result.key
  history : ∀ stores params, ∀ key ∈ (sessionsHistory text (some policy) stores params).2,
    policy.Permits key
  send : ∀ stores params parse agents sender sendFn,
    ∀ request ∈ (sessionsSend (some policy) stores params parse agents sender sendFn).2,
      policy.Permits request.key ∧ policy.canSend = true
  /-- The answers are the same in stores that differ in other sessions.  For the search, that is
  said of the orders in which the sessions can be visited. -/
  sameList : ∀ first second params, Agree policy first second →
    sessionsList text (some policy) first params = sessionsList text (some policy) second params
  sameSearch : ∀ first second params (values : List SessionEntry), Agree policy first second →
    values.Perm first.list → ∃ values' : List SessionEntry, values'.Perm second.list ∧
      sessionsSearch text (some policy) first params values =
        sessionsSearch text (some policy) second params values'
  sameHistory : ∀ first second params, Agree policy first second →
    (sessionsHistory text (some policy) first params).1 =
      (sessionsHistory text (some policy) second params).1

/-! ### Stores that agree -/

theorem sidebarOrder_key {first second : SessionEntry}
    (h : sidebarOrder first = sidebarOrder second) : first.key = second.key := by
  have hinner := congrArg (fun order : ℕᵒᵈ ×ₗ ℕᵒᵈ ×ₗ String => (ofLex (ofLex order).2).2) h
  exact hinner

variable (stores : SessionStores)

theorem SessionStores.key_inj {first second : SessionEntry}
    (hfirst : first ∈ stores.rows) (hsecond : second ∈ stores.rows)
    (h : first.key = second.key) : first = second :=
  inj_on_of_nodup_map stores.nodup hfirst hsecond h

theorem filter_list (p : SessionEntry → Bool) :
    stores.list.filter p = sortByKey sidebarOrder (stores.rows.filter p) := by
  have hfiltered := (pairwise_sortByKey sidebarOrder stores.rows).filter p
  have hsorted := pairwise_sortByKey sidebarOrder (stores.rows.filter p)
  refine List.Perm.eq_of_pairwise ?_ hfiltered hsorted ?_
  · intro first second hfirst hsecond hle hge
    rw [mem_filter, SessionStores.list, mem_sortByKey] at hfirst
    rw [mem_sortByKey, mem_filter] at hsecond
    exact stores.key_inj hfirst.1 hsecond.1 (sidebarOrder_key (le_antisymm hle hge))
  · exact ((perm_sortByKey sidebarOrder stores.rows).filter p).trans
      (perm_sortByKey sidebarOrder (stores.rows.filter p)).symm

theorem get_eq_find?_filter (h : policy.canAccess key = true) :
    stores.get key =
      (stores.rows.filter fun entry => policy.canAccess entry.key).find? fun entry =>
        entry.key = key := by
  rw [SessionStores.get, List.find?_filter]
  refine congrArg (fun p => stores.rows.find? p) (funext fun entry => ?_)
  by_cases hkey : entry.key = key
  · simp [hkey, h]
  · simp [hkey]

variable {first second : SessionStores}

theorem Agree.get (h : Agree policy first second)
    (hkey : policy.canAccess key = true) : first.get key = second.get key := by
  rw [get_eq_find?_filter first hkey, get_eq_find?_filter second hkey, h.rows]

/-! ### The search -/

variable {query : String}

theorem firstHit_key {generation : UiGeneration} {snapshots : List UiSnapshot} {hit : UiSearchHit}
    (h : firstHit text key generation query snapshots = .ok (some hit)) :
    hit.sessionKey = key := by
  induction snapshots with
  | nil => exact nomatch h
  | cons snapshot rest ih =>
    rw [firstHit] at h
    obtain ⟨found, -, h⟩ := bind_eq_ok.mp h
    cases hsnippet : text.searchSnippet found query with
    | none =>
      rw [hsnippet] at h
      exact ih h
    | some snippet =>
      rw [hsnippet] at h
      obtain ⟨value, -, h⟩ := bind_eq_ok.mp h
      split at h
      · exact nomatch h
      · rw [← Option.some.inj (Except.ok.inj h)]

theorem searchSession_key {session : HistorySession}
    {hit : UiSearchHit} (h : searchSession text key session query = .ok (some hit)) :
    hit.sessionKey = key := by
  rw [searchSession] at h
  split at h
  · exact nomatch h
  · exact firstHit_key h

variable {limit : ℕ} {keys : List String}
  {histories : String → Except Sessions.Error HistorySession}

theorem searchKeys_key {hits found : List UiSearchHit}
    (h : searchKeys text histories query limit keys hits = .ok found) :
    ∀ hit ∈ found, hit ∈ hits ∨ hit.sessionKey ∈ keys := by
  induction keys generalizing hits with
  | nil =>
    rw [← Except.ok.inj h]
    exact fun hit hmem => .inl hmem
  | cons key keys ih =>
    rw [searchKeys] at h
    split at h
    · exact fun hit hmem => (ih h hit hmem).imp_right (mem_cons_of_mem key)
    · exact nomatch h
    · obtain ⟨one, hone, h⟩ := bind_eq_ok.mp h
      have hnew : ∀ hit ∈ hits ++ one.toList, hit ∈ hits ∨ hit.sessionKey ∈ key :: keys := by
        intro hit hmem
        rcases mem_append.mp hmem with hold | hnew
        · exact .inl hold
        · rw [Option.mem_toList] at hnew
          rw [hnew] at hone
          exact .inr (searchSession_key hone ▸ mem_cons_self)
      dsimp only at h
      split at h
      · rw [← Except.ok.inj h]
        exact hnew
      · intro hit hmem
        rcases ih h hit hmem with hold | hlater
        · exact hnew hit hold
        · exact .inr (mem_cons_of_mem key hlater)

theorem searchKeys_congr {first second : String → Except Sessions.Error HistorySession}
    (hits : List UiSearchHit)
    (h : ∀ key ∈ keys, first key = second key) :
    searchKeys text first query limit keys hits = searchKeys text second query limit keys hits := by
  induction keys generalizing hits with
  | nil => rfl
  | cons key keys ih =>
    have hrest := fun hits => ih hits fun key hmem => h key (mem_cons_of_mem _ hmem)
    rw [searchKeys, searchKeys, h key mem_cons_self]
    simp only [hrest]

theorem searchHistories_key {found : List UiSearchHit}
    (h : searchHistories text histories keys query limit = .ok found) :
    ∀ hit ∈ found, hit.sessionKey ∈ keys := by
  rw [searchHistories] at h
  split at h
  · rw [← Except.ok.inj h]
    exact fun _ hmem => nomatch hmem
  · exact fun hit hmem => (searchKeys_key h hit hmem).resolve_left (not_mem_nil)

theorem searchHistories_congr {first second : String → Except Sessions.Error HistorySession}
    (h : ∀ key ∈ keys, first key = second key) :
    searchHistories text first keys query limit = searchHistories text second keys query limit := by
  rw [searchHistories, searchHistories, searchKeys_congr [] h]

variable {values : List SessionEntry} {current : Option String}

theorem mem_searchedKeys
    (h : key ∈ searchedKeys (some policy) current values) : policy.canAccess key = true := by
  obtain ⟨entry, hentry, rfl⟩ := mem_map.mp h
  exact (Bool.and_eq_true_iff.mp (mem_filter.mp hentry).2).2

theorem searchResults_key {stores : SessionStores}
    {hits : List UiSearchHit} {results : List SearchResult}
    (hresults : ∀ result ∈ results, policy.canAccess result.key = true) :
    ∀ result ∈ searchResults (some policy) stores current limit hits results,
      policy.canAccess result.key = true := by
  induction hits generalizing results with
  | nil => exact hresults
  | cons hit hits ih =>
    rw [searchResults]
    split
    · exact hresults
    split
    · exact ih hresults
    split
    · exact ih hresults
    · rename_i hallowed
      refine ih fun result hmem => ?_
      rcases mem_append.mp hmem with hold | hnew
      · exact hresults result hold
      · rw [mem_singleton.mp hnew]
        show policy.canAccess hit.sessionKey = true
        simpa [allowed] using hallowed

theorem searchResults_congr (h : Agree policy first second)
    {hits : List UiSearchHit} (results : List SearchResult)
    (hhits : ∀ hit ∈ hits, policy.canAccess hit.sessionKey = true) :
    searchResults (some policy) first current limit hits results =
      searchResults (some policy) second current limit hits results := by
  induction hits generalizing results with
  | nil => rfl
  | cons hit hits ih =>
    have hrest := fun results => ih results fun hit hmem => hhits hit (mem_cons_of_mem _ hmem)
    have hresult : searchResult first hit = searchResult second hit := by
      rw [searchResult, searchResult, h.get (hhits hit mem_cons_self)]
    rw [searchResults, searchResults, hresult]
    simp only [hrest]

theorem searchedKeys_eq (current : Option String) (values : List SessionEntry) :
    searchedKeys (some policy) current values =
      searchedKeys (some policy) current
        (values.filter fun entry => policy.canAccess entry.key) := by
  rw [searchedKeys, searchedKeys, filter_filter]
  congr 2
  funext entry
  show (_ && policy.canAccess entry.key) = ((_ && policy.canAccess entry.key) && _)
  rw [Bool.and_assoc, Bool.and_self]

/-- The order of some sessions can be completed with any others. -/
theorem exists_order (h : Agree policy first second) (hvalues : values.Perm first.list) :
    ∃ values' : List SessionEntry, values'.Perm second.list ∧
      (values'.filter fun entry => policy.canAccess entry.key) =
        values.filter fun entry => policy.canAccess entry.key := by
  refine ⟨values.filter (fun entry => policy.canAccess entry.key) ++
    second.rows.filter (fun entry => !policy.canAccess entry.key), ?_, ?_⟩
  · have hrows : (values.filter fun entry => policy.canAccess entry.key).Perm
        (second.rows.filter fun entry => policy.canAccess entry.key) := by
      rw [← h.rows]
      exact (hvalues.trans (perm_sortByKey sidebarOrder first.rows)).filter _
    refine (hrows.append_right _).trans ?_
    refine List.Perm.trans ?_ (perm_sortByKey sidebarOrder second.rows).symm
    exact filter_append_perm _ second.rows
  · rw [filter_append, filter_filter, filter_filter]
    simp

/-! ### The tools -/

theorem allowed_some (key : String) : allowed (some policy) key = policy.canAccess key := rfl

theorem sessionsList_key (params : Json) {entry : SessionEntry}
    (h : entry ∈ (sessionsList text (some policy) stores params).sessions) :
    policy.canAccess entry.key = true := by
  have hmem := mem_of_mem_take h
  exact (Bool.and_eq_true_iff.mp (mem_filter.mp hmem).2).1

theorem sessionsList_congr (h : Agree policy first second) (params : Json) :
    sessionsList text (some policy) first params =
      sessionsList text (some policy) second params := by
  have hlist : ∀ p : SessionEntry → Bool,
      first.list.filter (fun entry => allowed (some policy) entry.key && p entry) =
        second.list.filter fun entry => allowed (some policy) entry.key && p entry := by
    intro p
    have hrows : ∀ stores : SessionStores,
        stores.rows.filter (fun entry => allowed (some policy) entry.key && p entry) =
          (stores.rows.filter fun entry => policy.canAccess entry.key).filter p := by
      intro stores
      rw [filter_filter]
      refine filter_congr fun entry _ => ?_
      rw [allowed_some, Bool.and_comm]
    rw [filter_list, filter_list, hrows, hrows, h.rows]
  rw [sessionsList, sessionsList]
  simp only [hlist]

theorem sessionsSearch_key {stores : SessionStores} {params : Json} {answer : SearchAnswer}
    (h : sessionsSearch text (some policy) stores params values = .ok answer) :
    ∀ result ∈ answer.results, policy.canAccess result.key = true := by
  rw [sessionsSearch] at h
  obtain ⟨query, -, h⟩ := bind_eq_ok.mp h
  dsimp only at h
  split at h
  · exact nomatch h
  · rw [← Except.ok.inj h]
    exact searchResults_key (fun _ hmem => nomatch hmem)

theorem sessionsSearch_congr (h : Agree policy first second)
    (params : Json) {values values' : List SessionEntry}
    (hvalues : (values'.filter fun entry => policy.canAccess entry.key) =
      values.filter fun entry => policy.canAccess entry.key) :
    sessionsSearch text (some policy) first params values =
      sessionsSearch text (some policy) second params values' := by
  rw [sessionsSearch, sessionsSearch]
  refine congrArg (Bind.bind (requireStr params "query")) (funext fun query => ?_)
  have hkeys : searchedKeys (some policy) (currentSessionKey params) values' =
      searchedKeys (some policy) (currentSessionKey params) values := by
    rw [searchedKeys_eq, hvalues, ← searchedKeys_eq]
  have hsearch := @searchHistories_congr text query (min (u64Param params "limit" 5) 20)
    (searchedKeys (some policy) (currentSessionKey params) values) first.histories second.histories
    fun key hmem => h.histories key (mem_searchedKeys hmem)
  dsimp only
  rw [hkeys, ← hsearch]
  split
  · rfl
  · rename_i hits hfound
    rw [searchResults_congr h [] fun hit hmem =>
      mem_searchedKeys (searchHistories_key hfound hit hmem)]

theorem sessionsHistory_key {stores : SessionStores} {params : Json}
    (h : key ∈ (sessionsHistory text (some policy) stores params).2) :
    policy.canAccess key = true := by
  rw [sessionsHistory] at h
  split at h
  · exact nomatch h
  rename_i requested _
  split at h
  · exact nomatch h
  rename_i hallowed
  have hkey : policy.canAccess requested = true := by
    rw [allowed_some] at hallowed
    simpa using hallowed
  dsimp only at h
  split at h
  · exact nomatch h
  split at h
  · rw [mem_singleton.mp h]
    exact hkey
  · rw [mem_singleton.mp h]
    exact hkey

theorem sessionsHistory_congr (h : Agree policy first second) (params : Json) :
    sessionsHistory text (some policy) first params =
      sessionsHistory text (some policy) second params := by
  rw [sessionsHistory, sessionsHistory]
  cases requireStr params "key" with
  | error message => rfl
  | ok key =>
    dsimp only
    by_cases hkey : policy.canAccess key = true
    · rw [h.get hkey, h.histories key hkey]
    · rw [allowed_some, Bool.eq_false_iff.mpr hkey]
      rfl

theorem sessionsSend_key {stores : SessionStores} {params : Json}
    {parse : Json → Except String SessionsSendParams}
    {agents : Option (String → Option SenderAgent)} {sender : Option String}
    {sendFn : SendToSessionRequest → Except String Json} {request : SendToSessionRequest}
    (h : request ∈ (sessionsSend (some policy) stores params parse agents sender sendFn).2) :
    policy.canAccess request.key = true ∧ policy.canSend = true := by
  rw [sessionsSend] at h
  split at h
  · exact nomatch h
  rename_i sent _
  split at h
  · exact nomatch h
  rename_i hallowed
  split at h
  · exact nomatch h
  rename_i hsend
  have hboth : policy.canAccess sent.key = true ∧ policy.canSend = true := by
    rw [allowed_some] at hallowed
    rw [Option.any_some] at hsend
    exact ⟨by simpa using hallowed, by simpa using hsend⟩
  split at h
  · exact nomatch h
  split at h
  · exact nomatch h
  dsimp only at h
  split at h
  · rw [mem_singleton.mp h]
    exact hboth
  · rw [mem_singleton.mp h]
    exact hboth

/-! ### The policies that confine -/

def oneSession (key : String) : SessionStores where
  rows := [⟨"1", key, none, "model", "low", 0, 0, 0, none, none, 0⟩]
  nodup := List.nodup_singleton _
  histories key := .error (.historyWithoutJournal key)

theorem exists_key_notMem (keys : List String) : ∃ key, key ∉ keys := by
  obtain ⟨key, hkey⟩ := Infinite.exists_notMem_finset keys.toFinset
  exact ⟨key, fun hmem => hkey (mem_toFinset.mpr hmem)⟩

theorem not_confined_of_unscoped (hpre : policy.keyPrefix = none) : ¬Confined text policy := by
  intro h
  obtain ⟨key, hkey⟩ := exists_key_notMem policy.allowedKeys
  have hmem : (⟨"1", key, none, "model", "low", 0, 0, 0, none, none, 0⟩ : SessionEntry) ∈
      (sessionsList text (some policy) (oneSession key) .null).sessions := by
    show _ ∈ (List.filter (fun entry : SessionEntry => allowed (some policy) entry.key && true)
      [_]).take 20
    rw [filter_cons, allowed_some, SessionAccessPolicy.canAccess_of_unscoped hpre,
      Bool.and_self, if_pos rfl]
    exact mem_cons_self
  rcases h.list (oneSession key) .null _ hmem with hlisted | ⟨lead, hlead, -⟩
  · exact hkey hlisted
  · rw [hpre] at hlead
    exact nomatch hlead

/-- **A session policy confines the tools** exactly if it has a key prefix: then the tools list,
search, read and message only sessions that it permits, and what they answer does not depend on
the others. -/
theorem access_confined (text : HistoryText) (policy : SessionAccessPolicy) :
    Confined text policy ↔ policy.keyPrefix.isSome = true := by
  constructor
  · intro h
    by_contra hnone
    exact not_confined_of_unscoped (Option.not_isSome_iff_eq_none.mp hnone) h
  · intro hpre
    have hpermits : ∀ {key}, policy.canAccess key = true → policy.Permits key :=
      fun h => (SessionAccessPolicy.canAccess_iff hpre).mp h
    exact {
      list := fun stores params entry hmem => hpermits (sessionsList_key stores params hmem)
      search := fun stores params values answer _ hanswer result hmem =>
        hpermits (sessionsSearch_key hanswer result hmem)
      history := fun stores params key hmem => hpermits (sessionsHistory_key hmem)
      send := fun stores params parse agents sender sendFn request hmem =>
        (sessionsSend_key hmem).imp_left hpermits
      sameList := fun first second params hagree => sessionsList_congr hagree params
      sameSearch := fun first second params values hagree hvalues =>
        (exists_order hagree hvalues).imp fun values' h =>
          ⟨h.1, sessionsSearch_congr hagree params h.2⟩
      sameHistory := fun first second params hagree =>
        congrArg Prod.fst (sessionsHistory_congr hagree params) }

theorem keys_without_prefix :
    ¬∀ (text : HistoryText) (policy : SessionAccessPolicy), policy.Restricts →
      Confined text policy := by
  intro hall
  exact not_confined_of_unscoped rfl
    (hall ⟨id, fun _ => .ok .null, fun _ => .ok "", fun _ _ => none, fun _ => ""⟩
      ⟨none, ["session:a"], true, false⟩ (.inr (List.cons_ne_nil _ _)))

end Chelix.Tools
