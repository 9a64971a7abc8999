import Chelix.Agents.ToolBlocks

/-!
# A call in a fence

A call that is written as JSON in a `tool_call` fence is read back, and nothing else is, if and
only if its JSON does not contain a fence: the fence is searched for as text.
-/

namespace Chelix.Agents

open Chelix.Library List

/-! ## Trimming -/

variable {l : List Char} {c : Char}

theorem getLast?_dropWhile {p : Char → Bool} (h : l.getLast? = some c) (hc : p c = false) :
    (l.dropWhile p).getLast? = some c := by
  induction l with
  | nil => cases h
  | cons d l ih =>
    cases hd : p d with
    | false =>
      rw [dropWhile_cons_of_neg (ne_true_of_eq_false hd)]
      exact h
    | true =>
      rw [dropWhile_cons_of_pos hd]
      cases l with
      | nil =>
        have hdc : d = c := Option.some.inj h
        rw [← hdc, hd] at hc
        cases hc
      | cons e l => exact ih (by rwa [List.getLast?_cons_cons] at h)

theorem trimStart_of_head (h : l.head? = some c) (hc : isWhiteSpace c = false) :
    trimStart l = l := by
  obtain ⟨rest, rfl⟩ := List.head?_eq_some_iff.mp h
  exact dropWhile_cons_of_neg (ne_true_of_eq_false hc)

theorem trimEnd_of_last (h : l.getLast? = some c) (hc : isWhiteSpace c = false) :
    trimEnd l = l := by
  have hreverse := trimStart_of_head (List.head?_reverse.trans h) hc
  unfold trimStart at hreverse
  unfold trimEnd
  rw [hreverse, reverse_reverse]

theorem head?_trimText (h : l.head? = some c) (hc : isWhiteSpace c = false) :
    (trimText l).head? = some c := by
  unfold trimText
  rw [trimStart_of_head h hc]
  unfold trimEnd
  rw [List.head?_reverse]
  exact getLast?_dropWhile (List.getLast?_reverse.trans h) hc

theorem getLast?_trimText (h : l.getLast? = some c) (hc : isWhiteSpace c = false) :
    (trimText l).getLast? = some c := by
  have hstart : (trimStart l).getLast? = some c := getLast?_dropWhile h hc
  unfold trimText
  rw [trimEnd_of_last hstart hc]
  exact hstart

variable {d : Char}

theorem stripPrefix_eq_none {lead : List Char} (hlead : lead.head? = some c) (h : l.head? = some d)
    (hne : c ≠ d) : stripPrefix lead l = none := by
  unfold stripPrefix
  refine if_neg fun hpre => hne ?_
  obtain ⟨rest, rfl⟩ := isPrefixOf_iff_prefix.mp hpre
  obtain ⟨lead, rfl⟩ := List.head?_eq_some_iff.mp hlead
  exact Option.some.inj h

theorem stripSuffix_eq_none {last : List Char} (hlast : last.getLast? = some c)
    (h : l.getLast? = some d) (hne : c ≠ d) : stripSuffix last l = none := by
  unfold stripSuffix
  refine if_neg fun hsuffix => hne ?_
  obtain ⟨front, rfl⟩ := isSuffixOf_iff_suffix.mp hsuffix
  rw [List.getLast?_append, hlast] at h
  exact Option.some.inj h

theorem head?_stripSuffix {last rest : List Char} (hlast : last.head? = some c)
    (h : l.head? = some d) (hne : c ≠ d) (hstrip : stripSuffix last l = some rest) :
    rest.head? = some d := by
  unfold stripSuffix at hstrip
  split at hstrip
  · rename_i hsuffix
    obtain ⟨front, rfl⟩ := isSuffixOf_iff_suffix.mp hsuffix
    rw [length_append, Nat.add_sub_cancel, take_left] at hstrip
    obtain rfl := Option.some.inj hstrip
    cases front with
    | nil =>
      rw [nil_append, hlast] at h
      exact absurd (Option.some.inj h) hne
    | cons e front => exact h
  · cases hstrip

theorem getLast?_stripPrefix {lead rest : List Char} (hlead : lead.getLast? = some c)
    (h : l.getLast? = some d) (hne : c ≠ d) (hstrip : stripPrefix lead l = some rest) :
    rest.getLast? = some d := by
  unfold stripPrefix at hstrip
  split at hstrip
  · rename_i hpre
    obtain ⟨back, rfl⟩ := isPrefixOf_iff_prefix.mp hpre
    rw [drop_left] at hstrip
    obtain rfl := Option.some.inj hstrip
    rw [List.getLast?_append] at h
    cases hback : back.getLast? with
    | some e =>
      rw [hback] at h
      exact h
    | none =>
      rw [hback, hlead] at h
      exact absurd (Option.some.inj h) hne
  · cases hstrip

variable {text : List Char}

theorem head?_trimToolCallWrappers (h : text.head? = some '\x60') :
    (trimToolCallWrappers text).head? = some '\x60' := by
  have hvalue := head?_trimText h rfl
  have hpre : stripWrapperPrefix (trimText text) = none := by
    unfold stripWrapperPrefix
    rw [stripPrefix_eq_none (c := '<') rfl hvalue (by decide)]
    simp only
    rw [stripPrefix_eq_none (c := '<') rfl hvalue (by decide)]
    rfl
  unfold trimToolCallWrappers
  simp only
  rw [loop_of_none hpre]
  refine loop_invariant (P := fun value : List Char => value.head? = some '\x60')
    (fun value value' hvalue hstep => ?_) _ hvalue
  unfold stripWrapperSuffix at hstep
  split at hstep
  · rename_i rest hrest
    obtain rfl := Option.some.inj hstep
    exact head?_trimText (head?_stripSuffix (c := '<') rfl hvalue (by decide) hrest) rfl
  · obtain ⟨rest, hrest, rfl⟩ := Option.map_eq_some_iff.mp hstep
    exact head?_trimText (head?_stripSuffix (c := '<') rfl hvalue (by decide) hrest) rfl

theorem getLast?_trimToolCallWrappers (h : text.getLast? = some '\x60') :
    (trimToolCallWrappers text).getLast? = some '\x60' := by
  unfold trimToolCallWrappers
  simp only
  have hvalue : (loop stripWrapperPrefix (trimText text).length (trimText text)).getLast? =
      some '\x60' := by
    refine loop_invariant (P := fun value : List Char => value.getLast? = some '\x60')
      (fun value value' hvalue hstep => ?_) _ (getLast?_trimText h rfl)
    unfold stripWrapperPrefix at hstep
    split at hstep
    · rename_i rest hrest
      obtain rfl := Option.some.inj hstep
      exact getLast?_trimText (getLast?_stripPrefix (c := '>') rfl hvalue (by decide) hrest) rfl
    · obtain ⟨rest, hrest, rfl⟩ := Option.map_eq_some_iff.mp hstep
      exact getLast?_trimText (getLast?_stripPrefix (c := '>') rfl hvalue (by decide) hrest) rfl
  have hsuffix : stripWrapperSuffix
      (loop stripWrapperPrefix (trimText text).length (trimText text)) = none := by
    unfold stripWrapperSuffix
    rw [stripSuffix_eq_none (c := '>') rfl hvalue (by decide)]
    simp only
    rw [stripSuffix_eq_none (c := '>') rfl hvalue (by decide)]
    rfl
  rw [loop_of_none hsuffix]
  exact hvalue

/-! ## The text of a call -/

/-- The text of a call, whose JSON is `json`. -/
def fencedText (json : List Char) : List Char := fenceMarker ++ '\n' :: (json ++ '\n' :: fence)

/-- A text that is read as the JSON of a call. -/
structure Serialization (fromStr : FromStr) (json : List Char) (call : TextToolCall) : Prop where
  read : fromStr json = some (.obj [("tool", .str call.name), ("arguments", call.arguments)])
  object : ∃ args, call.arguments = .obj args
  first : json.head? = some '{'
  last : json.getLast? = some '}'

theorem length_fencedText (json : List Char) : (fencedText json).length = json.length + 17 := by
  unfold fencedText
  simp only [length_append, length_cons, show fenceMarker.length = 12 from rfl,
    show fence.length = 3 from rfl]
  omega

theorem find_fence {front json : List Char} (hfront : ∀ k, ¬OccursAt fence front k)
    (hjson : ¬fence <:+: json) :
    find fence (front ++ '\n' :: (json ++ '\n' :: fence)) = some (front.length + json.length + 2) := by
  have hnewline : '\n' ∉ fence := by decide
  refine (find_eq_some_iff (by decide)).mpr ⟨?_, fun j hj => ?_⟩
  · have hdrop : (front ++ '\n' :: (json ++ '\n' :: fence)).drop (front.length + json.length + 2) =
        fence := by
      rw [show front.length + json.length + 2 = front.length + (json.length + 1 + 1) by omega,
        drop_length_add_append, drop_succ_cons, drop_length_add_append]
      rfl
    unfold OccursAt
    rw [hdrop]
  · rcases hj.of_append_cons hnewline with hj | ⟨hlt, hj⟩
    · exact absurd hj (hfront j)
    · rcases hj.of_append_cons hnewline with hj | ⟨hlt', -⟩
      · exact absurd (exists_occursAt_iff.mp ⟨_, hj⟩) hjson
      · omega

theorem drop_fenceMarker (json : List Char) :
    (fencedText json).drop fenceMarker.length = '\n' :: (json ++ '\n' :: fence) :=
  drop_left

section Kept

variable {fromStr : FromStr} {json : List Char} {call : TextToolCall}

theorem loop_once {σ : Type} {step : σ → Option σ} {s t : σ} (hs : step s = some t)
    (ht : step t = none) {n : ℕ} (hn : 0 < n) : loop step n s = t := by
  obtain ⟨n, rfl⟩ := Nat.exists_eq_succ_of_ne_zero hn.ne'
  rw [loop_of_some hs, loop_of_none ht]

theorem findFrom_length {needle : List Char} (hneedle : needle ≠ []) :
    findFrom needle text text.length = none := by
  cases h : findFrom needle text text.length with
  | none => rfl
  | some i =>
    obtain ⟨hle, hocc, -⟩ := findFrom_spec hneedle h
    have hlen := hocc.length_le hneedle
    have hpos := length_pos_iff.mpr hneedle
    omega

theorem markdownCodeRanges_fencedText (h : ¬fence <:+: json) :
    markdownCodeRanges (fencedText json) = [(0, (fencedText json).length)] := by
  have hfirst : findFrom ['\x60'] (fencedText json) 0 = some 0 := rfl
  have hdelimiter : ((fencedText json).drop 0).takeWhile (· = '\x60') = fence := rfl
  have hfront : ∀ k, ¬OccursAt fence "tool_call".toList k :=
    fun k hk => absurd (exists_occursAt_iff.mp ⟨k, hk⟩) (by decide)
  have hend : find fence ((fencedText json).drop (0 + fence.length)) = some (json.length + 11) := by
    refine (find_fence hfront h).trans ?_
    rw [show "tool_call".toList.length = 9 from rfl]
    exact congrArg some (by omega)
  have hlen := length_fencedText json
  have hstep : codeRangeStep (fencedText json) { searchFrom := 0, ranges := [] } =
      some { searchFrom := (fencedText json).length, ranges := [(0, (fencedText json).length)] } := by
    have hstop : 0 + fence.length + (json.length + 11) + fence.length =
        (fencedText json).length := by
      rw [hlen, show fence.length = 3 from rfl]
      omega
    unfold codeRangeStep codeRangeEnd
    simp only [hfirst, hdelimiter, hend, hstop, nil_append]
  have hover : codeRangeStep (fencedText json) {
      searchFrom := (fencedText json).length
      ranges := [(0, (fencedText json).length)] } = none := by
    unfold codeRangeStep
    simp only [findFrom_length (cons_ne_nil '\x60' [])]
  unfold markdownCodeRanges
  rw [loop_once hstep hover (by omega)]

theorem trimText_json (h : Serialization fromStr json call) :
    trimText ('\n' :: (json ++ ['\n'])) = json := by
  have hbrace : isWhiteSpace '{' = false := by decide
  have hclose : isWhiteSpace '}' = false := by decide
  have hhead : (json ++ ['\n']).head? = some '{' := by
    rw [List.head?_append, h.first]
    rfl
  have hstart : trimStart ('\n' :: (json ++ ['\n'])) = json ++ ['\n'] := by
    change trimStart (json ++ ['\n']) = json ++ ['\n']
    exact trimStart_of_head hhead hbrace
  unfold trimText
  rw [hstart]
  unfold trimEnd
  rw [reverse_append]
  exact trimEnd_of_last h.last hclose

theorem tryParse_json (h : Serialization fromStr json call) :
    tryParseToolJson fromStr json = some call := by
  unfold tryParseToolJson
  rw [h.read]
  rfl

theorem collectFencedBlocks_fencedText (h : Serialization fromStr json call)
    (hfence : ¬fence <:+: json) :
    collectFencedBlocks fromStr (fencedText json) [] =
      [{ toolCall := call, start := 0, stop := (fencedText json).length }] := by
  have hfirst : findFrom fenceMarker (fencedText json) 0 = some 0 := by
    have hfind : find fenceMarker ((fencedText json).drop 0) = some 0 := by
      refine (find_eq_some_iff (by decide)).mpr ⟨prefix_append _ _, fun _ _ => Nat.zero_le _⟩
    unfold findFrom
    rw [hfind]
    rfl
  have hlen := length_fencedText json
  have hfront : ∀ k, ¬OccursAt fence [] k :=
    fun k hk => absurd (exists_occursAt_iff.mp ⟨k, hk⟩) (by decide)
  have hend : find fence ((fencedText json).drop (0 + fenceMarker.length)) =
      some (json.length + 2) := by
    rw [Nat.zero_add, drop_fenceMarker]
    refine (find_fence hfront hfence).trans (congrArg some ?_)
    rw [length_nil, Nat.zero_add]
  have hbody : trimText (((fencedText json).drop (0 + fenceMarker.length)).take
      (json.length + 2)) = json := by
    rw [Nat.zero_add, drop_fenceMarker, show json.length + 2 = (json.length + 1) + 1 from rfl,
      take_succ_cons, take_length_add_append]
    exact trimText_json h
  have hstep : fencedStep fromStr (fencedText json) { searchFrom := 0, blocks := [] } = some {
      searchFrom := (fencedText json).length
      blocks := [{ toolCall := call, start := 0, stop := (fencedText json).length }] } := by
    have hstop : 0 + fenceMarker.length + (json.length + 2) + 3 = (fencedText json).length := by
      rw [hlen, show fenceMarker.length = 12 from rfl]
      omega
    unfold fencedStep
    simp only [hfirst, hend, hbody, tryParse_json h, hstop, nil_append]
  have hover : fencedStep fromStr (fencedText json) {
      searchFrom := (fencedText json).length
      blocks := [{ toolCall := call, start := 0, stop := (fencedText json).length }] } = none := by
    unfold fencedStep
    simp only [findFrom_length (show fenceMarker ≠ [] by decide)]
  unfold collectFencedBlocks
  rw [loop_once hstep hover (by omega)]

theorem collectBlocks_of_code (h : markdownCodeRanges text = [(0, text.length)]) :
    collectBlocks fromStr text = collectFencedBlocks fromStr text [] := by
  have hinside {pos : ℕ} (hpos : pos < text.length) :
      isInsideRanges pos (markdownCodeRanges text) = true := by
    rw [h]
    simp [isInsideRanges, hpos]
  have hno (block : ParsedBlock) (hlt : block.start < text.length) :
      ¬Outside (markdownCodeRanges text) block :=
    fun houtside => Bool.false_ne_true (houtside.symm.trans (hinside hlt))
  have hbare (n : ℕ) (s : BlockScan) :
      (loop (bareJsonStep fromStr text (markdownCodeRanges text)) n s).blocks = s.blocks := by
    refine loop_invariant (P := fun t : BlockScan => t.blocks = s.blocks) (fun t u ht hstep => ?_)
      n rfl
    obtain ⟨absHit, -, ⟨rfl, -⟩ | ⟨block, ⟨hocc, houtside, -⟩, -, rfl⟩⟩ :=
      bareJsonStep_spec fromStr text hstep
    · exact ht
    · have hlen := hocc.length_le (by decide)
      have hkey : toolKey.length = 6 := rfl
      rw [hinside (by omega)] at houtside
      cases houtside
  unfold collectBlocks collectBareJsonBlocks collectZhipuBlocks collectInvokeBlocks
    collectFunctionBlocks
  simp only
  rw [hbare, (zhipuStep_walks fromStr text _).blocks_eq (by decide) hno,
    (invokeStep_walks fromStr text _).blocks_eq (by decide) hno,
    (functionStep_walks fromStr text _).blocks_eq (by decide) hno]

theorem parse_fencedText (h : Serialization fromStr json call) (hfence : ¬fence <:+: json) :
    parseToolCallsFromText fromStr (fencedText json) = ([call], none) := by
  have hblocks : collectBlocks fromStr (fencedText json) =
      [{ toolCall := call, start := 0, stop := (fencedText json).length }] :=
    (collectBlocks_of_code (markdownCodeRanges_fencedText hfence)).trans
      (collectFencedBlocks_fencedText h hfence)
  unfold parseToolCallsFromText
  rw [if_neg (by rw [hblocks]; exact cons_ne_nil _ _)]
  unfold mergedBlocks
  rw [hblocks]
  simp only [sortByKey, insertionSort_cons, insertionSort_nil, orderedInsert_nil,
    keepDisjoint, keepAfter, remainingParts, drop_length]
  rfl

theorem stop_of_start_eq_zero {block : ParsedBlock}
    (hblock : block ∈ collectBlocks fromStr (fencedText json)) (hstart : block.start = 0)
    (hfence : fence <:+: json) : block.stop < (fencedText json).length := by
  have hhead : (fencedText json)[0]? = some '\x60' := rfl
  have hno {c : Char} (hocc : OccursAt [c] (fencedText json) block.start) : c = '\x60' := by
    have hget := hocc.getElem? (show 0 < 1 by decide)
    rw [hstart, Nat.add_zero, hhead] at hget
    exact (Option.some.inj hget).symm
  obtain ⟨-, hsource⟩ := mem_collectBlocks hblock
  cases hsource with
  | tags hocc _ => exact absurd (hno hocc) (by decide)
  | bare hbare => exact absurd (hno hbare.occurs) (by decide)
  | fenced _ hfenced =>
    obtain ⟨endRel, hend, hstop, -⟩ := hfenced
    rw [hstart, Nat.zero_add, drop_fenceMarker] at hend
    obtain ⟨k, hk⟩ := exists_occursAt_iff.mpr hfence
    have hle := ((find_eq_some_iff (by decide)).mp hend).2 (k + 1)
      (hk.trans ((prefix_append json ('\n' :: fence)).drop k))
    have hlen := hk.length_le (by decide)
    have hmarker : fenceMarker.length = 12 := rfl
    have hthree : fence.length = 3 := rfl
    rw [hstop, hstart, length_fencedText]
    omega

/-- A call whose JSON has a fence is not read back: what is left of the text is at least the fence
that ends it. -/
theorem not_parse_fencedText (hfence : fence <:+: json) (calls : TextToolCall) :
    parseToolCallsFromText fromStr (fencedText json) ≠ ([calls], none) := by
  intro hparse
  unfold parseToolCallsFromText at hparse
  split at hparse
  · cases hparse
  simp only [Prod.mk.injEq] at hparse
  obtain ⟨hcalls, hparts⟩ := hparse
  obtain ⟨block, hmerged, -⟩ := map_eq_singleton_iff.mp hcalls
  have hblock : block ∈ collectBlocks fromStr (fencedText json) :=
    mem_of_mem_mergedBlocks (hmerged ▸ mem_singleton.mpr rfl)
  rw [hmerged] at hparts
  have hempty : ∀ part ∈ remainingParts (fencedText json) 0 [block], part = [] := by
    by_contra hne
    push Not at hne
    obtain ⟨part, hpart, hne⟩ := hne
    rw [if_neg (ne_nil_of_mem (mem_filter.mpr ⟨hpart, decide_eq_true hne⟩))] at hparts
    cases hparts
  have hbefore := hempty _ mem_cons_self
  have hafter := hempty _ (mem_cons_of_mem _ mem_cons_self)
  have hstart : block.start = 0 := by
    by_contra hne
    obtain ⟨n, hn⟩ := Nat.exists_eq_succ_of_ne_zero hne
    have hfirst : (((fencedText json).drop 0).take (block.start - 0)).head? = some '\x60' := by
      rw [hn]
      rfl
    have hhead := head?_trimToolCallWrappers (head?_trimText hfirst rfl)
    rw [hbefore] at hhead
    cases hhead
  have hlast : ((fencedText json).drop block.stop).getLast? = some '\x60' := by
    have hlt := stop_of_start_eq_zero hblock hstart hfence
    rw [List.getLast?_drop, if_neg (by omega)]
    unfold fencedText
    rw [List.getLast?_append, List.getLast?_cons, List.getLast?_append, List.getLast?_cons]
    rfl
  have htail := getLast?_trimToolCallWrappers (getLast?_trimText hlast rfl)
  rw [hafter] at htail
  cases htail

/-- **A fenced call is read back**, and nothing else is, if and only if its JSON has no fence. -/
theorem parse_fencedText_iff (h : Serialization fromStr json call) :
    parseToolCallsFromText fromStr (fencedText json) = ([call], none) ↔ ¬fence <:+: json :=
  ⟨fun hparse hfence => not_parse_fencedText hfence call hparse, parse_fencedText h⟩

end Kept

/-! ## Two calls -/

def listCall : TextToolCall where
  name := "ls"
  arguments := .obj []

def listJson : List Char := "\x7b\"tool\":\"ls\",\"arguments\":\x7b\x7d\x7d".toList

theorem parse_fencedText_list : ∃ fromStr, Serialization fromStr listJson listCall ∧
    parseToolCallsFromText fromStr (fencedText listJson) = ([listCall], none) := by
  have h : Serialization (fun text => if text = listJson then
      some (.obj [("tool", .str "ls"), ("arguments", .obj [])]) else none) listJson listCall :=
    ⟨if_pos rfl, ⟨_, rfl⟩, rfl, rfl⟩
  exact ⟨_, h, (parse_fencedText_iff h).mpr (by decide)⟩

/-- A call that writes some content. -/
def writeCall (content : String) : TextToolCall where
  name := "write"
  arguments := .obj [("content", .str content)]

def writeJson (content : String) : List Char :=
  ("\x7b\"tool\":\"write\",\"arguments\":\x7b\"content\":" ++ Json.escape content ++
    "\x7d\x7d").toList

/-- What reads the calls that write a fence, and nothing. -/
def readsWrites : FromStr := fun text =>
  if text = writeJson "```" then some (.obj [("tool", .str "write"),
    ("arguments", (writeCall "```").arguments)])
  else if text = writeJson "" then some (.obj [("tool", .str "write"),
    ("arguments", (writeCall "").arguments)])
  else none

theorem parse_fencedText_write : Serialization readsWrites (writeJson "```") (writeCall "```") ∧
    parseToolCallsFromText readsWrites (fencedText (writeJson "```")) =
      ([writeCall ""], some "\"\x7d\x7d\n```".toList) := by
  refine ⟨⟨if_pos rfl, ⟨_, rfl⟩, rfl, rfl⟩, ?_⟩
  decide

end Chelix.Agents
