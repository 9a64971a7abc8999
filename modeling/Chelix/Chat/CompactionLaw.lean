import Chelix.Chat.Compaction

/-!
# What compaction keeps
-/

namespace Chelix.Chat

open Chelix.Library Chelix.Common Chelix.Agents.Model Chelix.Sessions List

/-! ## The journal meanwhile -/

section Journal

variable {fromStr : String → Except String Json} {t t' : SessionTables}

theorem appendBatches_ok (hindexed : Indexed fromStr t) {batches : List (List Json)}
    (h : appendBatches fromStr t batches = .ok t') :
    Indexed fromStr t' ∧ t'.values = t.values ++ batches.flatten := by
  induction batches generalizing t with
  | nil =>
    obtain rfl := Except.ok.inj h
    exact ⟨hindexed, (append_nil _).symm⟩
  | cons batch batches ih =>
    rw [appendBatches, foldlM_cons] at h
    obtain ⟨next, hnext, h⟩ := bind_eq_ok.mp h
    obtain ⟨hlast, hvalues⟩ := ih (hindexed.append hnext) h
    refine ⟨hlast, ?_⟩
    rw [hvalues, hindexed.values_append hnext, flatten_cons, append_assoc]

theorem tail_eq_length (hindexed : Indexed fromStr t) :
    (t.journal.map JournalPointers.canonicalTail).getD 0 = t.values.length := by
  rw [hindexed.length_values]
  cases t.journal <;> rfl

end Journal

/-! ## The search -/

section Search

variable {fromStr : String → Except String Json} {t : SessionTables} {pointers : JournalPointers}
  {values more : List Json}

theorem mapError_eq_ok {ε ε' α : Type} {f : ε → ε'} {x : Except ε α} {a : α} :
    x.mapError f = .ok a ↔ x = .ok a := by
  cases x <;> simp [Except.mapError]

variable {continuation : List ChatMessage} {found : Option ℕ}

theorem findAssistantIndex_ok (h : JournalIndex fromStr t pointers)
    (hvalues : t.values = values ++ more)
    (hfound : findAssistantIndex t values.length (expectedToolCallIds continuation) = .ok found)
    (a : ℕ) : found = some a ↔ RoundRecord values continuation a := by
  unfold RoundRecord
  cases hids : expectedToolCallIds continuation with
  | none =>
    rw [hids] at hfound
    rw [← Except.ok.inj hfound]
    simp
  | some ids =>
    rw [hids] at hfound
    rw [latestMatchingAssistant_ok h hfound a, hvalues, latest_append (Nat.le_refl _)]
    simp

theorem RoundRecord.lt {a : ℕ} (h : RoundRecord values continuation a) : a < values.length := by
  obtain ⟨ids, -, hlatest⟩ := h
  exact hlatest.lt

theorem findUserBefore_ok (h : JournalIndex fromStr t pointers)
    (hvalues : t.values = values ++ more) {assistantIndex : Option ℕ}
    (hround : ∀ a, assistantIndex = some a ↔ RoundRecord values continuation a)
    (hfound : findUserBefore t assistantIndex = .ok found) (b : ℕ) :
    found = some b ↔ ∃ a, RoundRecord values continuation a ∧ Latest values IsUser a b := by
  cases assistantIndex with
  | none =>
    rw [← Except.ok.inj hfound]
    simp [← hround]
  | some a =>
    have ha : RoundRecord values continuation a := (hround a).mp rfl
    rw [latestUserBefore_ok h hfound b, hvalues, latest_append (Nat.le_of_lt ha.lt)]
    constructor
    · intro hlatest
      exact ⟨a, ha, hlatest⟩
    · rintro ⟨a', ha', hlatest⟩
      obtain rfl := Option.some.inj ((hround a').mpr ha')
      exact hlatest

/-- **The search finds the boundary, and nothing when there is none.** -/
theorem findBoundary_ok (h : JournalIndex fromStr t pointers) (hvalues : t.values = values ++ more)
    {first : ChatMessage} {rest : List ChatMessage} {assistantIndex : Option ℕ}
    (hround : ∀ a, assistantIndex = some a ↔ RoundRecord values (first :: rest) a)
    (hfound : findBoundary t values.length first assistantIndex = .ok found) (b : ℕ) :
    found = some b ↔ Boundary values b (first :: rest) := by
  cases first with
  | system content | tool toolCallId content =>
    rw [← Except.ok.inj hfound]
    simp [Boundary]
  | assistant content toolCalls reasoning providerItems segmentId =>
    obtain rfl := Except.ok.inj hfound
    exact hround b
  | user content name =>
    obtain ⟨before, hbefore, hrest⟩ := bind_eq_ok.mp hfound
    have hspec := findUserBefore_ok h hvalues hround hbefore
    cases before with
    | some index =>
      have hindex := (hspec index).mp rfl
      rw [← Except.ok.inj hrest, hspec b]
      constructor
      · exact Or.inl
      · rintro (hb | ⟨hnone, -⟩)
        · exact hb
        · obtain ⟨a, ha, hlatest⟩ := hindex
          exact (hnone a index ha hlatest).elim
    | none =>
      have hnone : ∀ a c, RoundRecord values (.user content name :: rest) a →
          ¬Latest values IsUser a c := by
        intro a c ha hlatest
        have hsome := (hspec c).mpr ⟨a, ha, hlatest⟩
        cases hsome
      have hiff : Boundary values b (.user content name :: rest) ↔
          ContentRecord values b content := by
        constructor
        · rintro (⟨a, ha, hlatest⟩ | ⟨-, hb⟩)
          · exact (hnone a b ha hlatest).elim
          · exact hb
        · intro hb
          exact Or.inr ⟨hnone, hb⟩
      rw [hiff]
      cases content with
      | text expected =>
        rw [latestUserTextContainedBy_ok h hrest b, hvalues, latest_append (Nat.le_refl _)]
        exact Iff.rfl
      | multimodal parts =>
        rw [latestUserBefore_ok h hrest b, hvalues, latest_append (Nat.le_refl _)]
        exact Iff.rfl

theorem findPreservedTailStart_ok (h : JournalIndex fromStr t pointers)
    (hvalues : t.values = values ++ more) {b : ℕ}
    (hfind : findPreservedTailStart t values.length continuation = .ok b) (b' : ℕ) :
    Boundary values b' continuation ↔ b' = b := by
  cases continuation with
  | nil =>
    rw [← Except.ok.inj hfind]
    exact Iff.rfl
  | cons first rest =>
    obtain ⟨assistantIndex, hassistant, hfind⟩ := bind_eq_ok.mp hfind
    obtain ⟨found, hfound, hfind⟩ := bind_eq_ok.mp hfind
    have hround := findAssistantIndex_ok h hvalues (mapError_eq_ok.mp hassistant)
    have hspec := findBoundary_ok h hvalues hround (mapError_eq_ok.mp hfound)
    cases found with
    | none => cases hfind
    | some boundary =>
      obtain rfl := Except.ok.inj hfind
      rw [← hspec b', Option.some.injEq]
      exact eq_comm

theorem Boundary.le {b : ℕ} (h : Boundary values b continuation) : b ≤ values.length := by
  match continuation with
  | [] => exact Nat.le_of_eq h
  | .user content _ :: _ =>
    rcases h with ⟨a, ha, hlatest⟩ | ⟨-, hb⟩
    · have hlt := hlatest.lt
      have halt := ha.lt
      omega
    · cases content with
      | text text | multimodal parts => exact Nat.le_of_lt hb.lt
  | .assistant _ _ _ _ _ :: _ => exact Nat.le_of_lt (RoundRecord.lt h)
  | .system _ :: _ => exact h.elim
  | .tool _ _ :: _ => exact h.elim

end Search

/-! ## The new checkpoint -/

theorem isCheckpoint_checkpointRecord (provider : SummaryProvider) (summary : String)
    (reply : SummaryReply) (createdAt n : ℕ) :
    isCheckpoint (checkpointRecord provider summary reply createdAt n) = true := rfl

theorem toU32_le (n : ℕ) : toU32 n ≤ n := by
  unfold toU32
  split
  · exact Nat.le_refl n
  · omega

theorem tailStart_checkpointRecord (provider : SummaryProvider) (summary : String)
    (reply : SummaryReply) (createdAt : ℕ) {n index : ℕ} (hn : n ≤ index) :
    Agents.Model.tailStart (checkpointRecord provider summary reply createdAt n) index =
      toU32 n := by
  have hle : toU32 n ≤ index := Nat.le_trans (toU32_le n) hn
  change ((some (toU32 n)).filter fun start => decide (start ≤ index)).getD index = toU32 n
  rw [Option.filter_some, if_pos (by simpa using hle), Option.getD_some]

theorem orderedValues_append (values : List Json) {checkpoint : Json}
    (h : isCheckpoint checkpoint = true) :
    orderedValues (values ++ [checkpoint]) = (checkpoint, values.length) ::
      (values.zipIdx.drop (Agents.Model.tailStart checkpoint values.length)).filter
        fun entry => !isCheckpoint entry.1 := by
  have hzip : (values ++ [checkpoint]).zipIdx = values.zipIdx ++ [(checkpoint, values.length)] := by
    rw [zipIdx_append, Nat.zero_add, zipIdx_singleton]
  have hlatest : latestCheckpoint (values ++ [checkpoint]) = some (checkpoint, values.length) := by
    have hlast : [(checkpoint, values.length)].filter (fun entry => isCheckpoint entry.1) =
        [(checkpoint, values.length)] := filter_cons_of_pos h
    rw [latestCheckpoint, hzip, filter_append, hlast, List.getLast?_concat]
  have htake : (values.zipIdx ++ [(checkpoint, values.length)]).take values.length =
      values.zipIdx := by
    rw [take_append_of_le_length (by rw [length_zipIdx])]
    exact take_of_length_le (by rw [length_zipIdx])
  have hdrop : (values.zipIdx ++ [(checkpoint, values.length)]).drop (values.length + 1) = [] := by
    rw [drop_eq_nil_iff]
    simp
  simp only [orderedValues, hlatest, hzip, htake, hdrop, append_nil]

variable {entry : Json × ℕ}

theorem mem_orderedValues_append (values : List Json) {checkpoint : Json}
    (h : isCheckpoint checkpoint = true) :
    entry ∈ orderedValues (values ++ [checkpoint]) ↔ entry = (checkpoint, values.length) ∨
      (entry ∈ values.zipIdx ∧ Agents.Model.tailStart checkpoint values.length ≤ entry.2 ∧
        isCheckpoint entry.1 = false) := by
  have hdrop := filter_zipIdx_le values 0 (Agents.Model.tailStart checkpoint values.length)
  simp only [Nat.zero_add] at hdrop
  rw [orderedValues_append values h, mem_cons, ← hdrop, mem_filter, mem_filter]
  simp [and_assoc]

theorem orderedValues_subset {values : List Json} (h : entry ∈ orderedValues values) :
    entry ∈ values.zipIdx := by
  cases hlatest : latestCheckpoint values with
  | none =>
    unfold orderedValues at h
    rwa [hlatest] at h
  | some latest =>
    rcases mem_orderedValues hlatest h with rfl | ⟨hmem, -⟩
    · exact (mem_filter.mp (mem_of_getLast? hlatest)).1
    · exact hmem

/-! ## The compaction -/

section Compaction

variable {fromStr : String → Except String Json} {request : String} {createdAt : ℕ}
  {provider : SummaryProvider} {before found now after : SessionTables}
  {messages continuation : List ChatMessage} {message : Json}

theorem prepareCheckpointFromPrompt_ok (h : prepareCheckpointFromPrompt request createdAt provider
    before found messages continuation = .ok message) :
    ∃ summary reply b, findPreservedTailStart found
        ((before.journal.map JournalPointers.canonicalTail).getD 0) continuation = .ok b ∧
      message = checkpointRecord provider summary reply createdAt b := by
  obtain ⟨-, h⟩ := guard_eq_ok.mp h
  obtain ⟨-, -, h⟩ := bind_eq_ok.mp h
  obtain ⟨⟨summary, reply⟩, -, h⟩ := bind_eq_ok.mp h
  obtain ⟨b, hb, h⟩ := bind_eq_ok.mp h
  exact ⟨summary, reply, b, hb, (Except.ok.inj h).symm⟩

end Compaction

/-! ## What it keeps -/

section Keeps

variable {values meanwhile : List Json} {prompt continuation : List PromptMessage}
  {checkpoint : Json} {start : ℕ}

theorem mem_zipIdx_append (h : entry ∈ values.zipIdx) : entry ∈ (values ++ meanwhile).zipIdx := by
  rw [zipIdx_append]
  exact mem_append_left _ h

theorem mem_zipIdx_append_right (h : entry ∈ meanwhile.zipIdx values.length) :
    entry ∈ (values ++ meanwhile).zipIdx := by
  rw [zipIdx_append, Nat.zero_add]
  exact mem_append_right _ h

theorem answersBelow_append (hstart : start ≤ values.length) (more : List Json) (record : Json) :
    AnswersBelow (values ++ more) start record ↔ AnswersBelow values start record := by
  refine exists_congr fun id => and_congr_right fun _ => exists_congr fun i =>
    and_congr_right fun hi => ?_
  rw [List.getElem?_append_left (show i < values.length by omega)]

/-- **What a checkpoint that keeps the records from an index on has to meet.**  The prompt is in
front of the index, which is one of the first message, and what follows it begins clean. -/
theorem keeps_iff (hcheckpoint : isCheckpoint checkpoint = true)
    (htail : Agents.Model.tailStart checkpoint (values ++ meanwhile).length = start)
    (hstart : start ≤ values.length) :
    Keeps values meanwhile prompt continuation start (values ++ meanwhile ++ [checkpoint]) ↔
      InFront values prompt start ∧ (∀ m, continuation.head? = some m → start ∈ m.records) ∧
        BeginsClean (values ++ meanwhile) start := by
  have hlen : start ≤ (values ++ meanwhile).length := by
    rw [length_append]
    omega
  have hloaded : ∀ entry ∈ (values ++ meanwhile).zipIdx,
      (entry ∈ orderedValues (values ++ meanwhile ++ [checkpoint]) ↔
        start ≤ entry.2 ∧ isCheckpoint entry.1 = false) := by
    intro entry hentry
    have hlt := snd_lt_of_mem_zipIdx hentry
    rw [mem_orderedValues_append _ hcheckpoint, htail]
    constructor
    · rintro (rfl | ⟨-, hloaded⟩)
      · exact absurd hlt (by simp)
      · exact hloaded
    · intro hloaded
      exact Or.inr ⟨hentry, hloaded⟩
  have hhead : (orderedValues (values ++ meanwhile ++ [checkpoint])).tail.head? =
      ((values ++ meanwhile).zipIdx.drop start).find? fun entry => !isCheckpoint entry.1 := by
    rw [orderedValues_append _ hcheckpoint, htail, tail_cons, List.head?_filter]
  constructor
  · intro h
    refine ⟨fun entry hentry hbefore => ?_, h.first, fun entry hentry => ?_⟩
    · rcases h.active entry hentry with hprompt | ⟨hge, hmem⟩
      · exact hprompt
      · have hkept := (hloaded entry (mem_zipIdx_append (orderedValues_subset hentry))).mp hmem
        rcases hbefore with hlt | hrole
        · omega
        · rw [hkept.2] at hrole
          cases hrole
    · have hanswers := h.answers entry (hhead.trans hentry)
      rwa [answersBelow_append hlen] at hanswers
  · rintro ⟨hfront, hfirst, hclean⟩
    refine ⟨fun entry hentry => ?_, fun entry hentry => ?_, hfirst, fun entry hentry => ?_⟩
    · by_cases hbefore : entry.2 < start ∨ isCheckpoint entry.1 = true
      · exact Or.inl (hfront entry hentry hbefore)
      · rw [not_or, Nat.not_lt, Bool.not_eq_true] at hbefore
        exact Or.inr ⟨hbefore.1,
          (hloaded entry (mem_zipIdx_append (orderedValues_subset hentry))).mpr hbefore⟩
    · have hle := le_snd_of_mem_zipIdx hentry
      refine ⟨by omega, fun hrole => ?_⟩
      exact (hloaded entry (mem_zipIdx_append_right hentry)).mpr ⟨by omega, hrole⟩
    · rw [answersBelow_append hlen]
      exact hclean entry (hhead.symm.trans hentry)

theorem beginsClean_of_getElem? {record : Json} {r : ℕ} (hrecord : values[r]? = some record)
    (hrole : recordRole record = "user" ∨ recordRole record = "assistant") :
    BeginsClean (values ++ meanwhile) r := by
  have hlt : r < values.length := (List.getElem?_eq_some_iff.mp hrecord).1
  have hvalue : role record = some "user" ∨ role record = some "assistant" := by
    rwa [recordRole_eq_iff (by decide), recordRole_eq_iff (by decide)] at hrole
  intro entry hfind
  have hdrop : ((values ++ meanwhile).zipIdx.drop r).head? = some (record, r) := by
    rw [List.head?_drop, List.getElem?_zipIdx, List.getElem?_append_left hlt, hrecord]
    simp
  have hplain : isCheckpoint record = false := by
    rcases hvalue with hvalue | hvalue <;> simp [isCheckpoint, hvalue]
  obtain ⟨tail, htail⟩ : ∃ tail, (values ++ meanwhile).zipIdx.drop r = (record, r) :: tail :=
    List.head?_eq_some_iff.mp hdrop
  rw [htail, List.find?_cons_of_pos (by simp [hplain])] at hfind
  obtain rfl := Option.some.inj hfind
  rintro ⟨id, hid, -⟩
  rcases hvalue with hvalue | hvalue <;> simp [resultCallId, hvalue] at hid

theorem Boundary.beginsClean {b : ℕ} {first : ChatMessage} {rest : List ChatMessage}
    (h : Boundary values b (first :: rest)) : BeginsClean (values ++ meanwhile) b := by
  match first with
  | .user content _ =>
    rcases h with ⟨a, -, hlatest⟩ | ⟨-, hb⟩
    · obtain ⟨-, record, hrecord, hrole⟩ := hlatest.1
      exact beginsClean_of_getElem? hrecord (.inl hrole)
    · cases content with
      | text text =>
        obtain ⟨-, record, hrecord, hrole, -⟩ := hb.1
        exact beginsClean_of_getElem? hrecord (.inl hrole)
      | multimodal parts =>
        obtain ⟨-, record, hrecord, hrole⟩ := hb.1
        exact beginsClean_of_getElem? hrecord (.inl hrole)
  | .assistant _ _ _ _ _ =>
    obtain ⟨-, -, ⟨-, record, hrecord, hrole, -⟩, -⟩ := h
    exact beginsClean_of_getElem? hrecord (.inr hrole)
  | .system _ => exact h.elim
  | .tool _ _ => exact h.elim

theorem toU32_of_lt {n : ℕ} (h : n < 2 ^ 32) : toU32 n = n := if_pos h

theorem toU32_of_le {n : ℕ} (h : 2 ^ 32 ≤ n) : toU32 n = 2 ^ 32 - 1 := if_neg (Nat.not_lt.mpr h)

/-- **What the journal and the split have to meet for the index that a checkpoint holds.** -/
theorem locatable_iff {b : ℕ}
    (hboundary : ∀ b', Boundary values b' (continuation.map PromptMessage.message) ↔ b' = b) :
    Locatable values meanwhile prompt continuation ↔
      InFront values prompt (toU32 b) ∧
        (∀ m, continuation.head? = some m → toU32 b ∈ m.records) ∧
        BeginsClean (values ++ meanwhile) (toU32 b) := by
  cases continuation with
  | nil =>
    obtain rfl : values.length = b := (hboundary values.length).mp rfl
    constructor
    · rintro ⟨hfront, hclean⟩
      exact ⟨hfront, nofun, hclean⟩
    · rintro ⟨hfront, -, hclean⟩
      exact ⟨hfront, hclean⟩
  | cons first rest =>
    constructor
    · rintro ⟨r, hr, hfront, ⟨hlt, hfound⟩ | ⟨rfl, hclean, b', hle, hfound⟩⟩
      · obtain rfl := (hboundary r).mp hfound
        rw [toU32_of_lt hlt]
        refine ⟨hfront, fun m hm => ?_, hfound.beginsClean⟩
        rwa [← Option.some.inj hm]
      · obtain rfl := (hboundary b').mp hfound
        rw [toU32_of_le hle]
        refine ⟨hfront, fun m hm => ?_, hclean⟩
        rwa [← Option.some.inj hm]
    · rintro ⟨hfront, hfirst, hclean⟩
      refine ⟨toU32 b, hfirst first rfl, hfront, ?_⟩
      rcases Nat.lt_or_ge b (2 ^ 32) with hlt | hle
      · rw [toU32_of_lt hlt]
        exact .inl ⟨hlt, (hboundary b).mpr rfl⟩
      · rw [toU32_of_le hle] at hclean ⊢
        exact .inr ⟨rfl, hclean, b, hle, (hboundary b).mpr rfl⟩

/-- Where the messages stand for the records in order, the first record of the continuation is the
only one that the search may end at. -/
theorem InOrder.locatable_iff {first : PromptMessage} {rest : List PromptMessage} {r : ℕ}
    (h : InOrder values prompt first r) (hlt : values.length < 2 ^ 32) :
    Locatable values meanwhile prompt (first :: rest) ↔
      Boundary values r ((first :: rest).map PromptMessage.message) := by
  constructor
  · rintro ⟨r', hr', hfront, ⟨-, hfound⟩ | ⟨-, -, b, hle, hfound⟩⟩
    · obtain ⟨entry, hactive, rfl⟩ := h.active
      have hge : entry.2 ≤ r' := h.first.2 hr'
      rcases Nat.eq_or_lt_of_le hge with heq | hbefore
      · rwa [heq]
      · obtain ⟨m, hm, hin⟩ := hfront entry hactive (.inl hbefore)
        exact absurd hin (h.parted m hm)
    · have hb := hfound.le
      omega
  · intro hfound
    have hb := hfound.le
    exact ⟨r, h.first.1, h.front, .inl ⟨by omega, hfound⟩⟩

end Keeps

/-- **When compaction loses no message.**  Whatever the prompt was, wherever it was split and
whatever was appended before the checkpoint: the checkpoint keeps everything exactly for the
journals and splits whose continuation can be located; where the messages stand for the records in
order, exactly when the search singles out the first record of the continuation.  There is no
checkpoint without a boundary. -/
theorem compaction_keeps_iff {fromStr : String → Except String Json} (request : String)
    (createdAt : ℕ) (provider : SummaryProvider) (journal : SessionJournal fromStr)
    {meanwhile late : List (List Json)} {found now : SessionTables}
    (hfound : appendBatches fromStr journal.tables meanwhile = .ok found)
    (hnow : appendBatches fromStr found late = .ok now) (messages : List PromptMessage)
    (continuationStart : ℕ) :
    let values := journal.tables.values
    let prompt := (splitContextForCompaction messages continuationStart).1
    let continuation := (splitContextForCompaction messages continuationStart).2
    (∀ message after, summarizeSessionFromPrompt fromStr request createdAt provider journal.tables
        found now (prompt.map PromptMessage.message) (continuation.map PromptMessage.message) =
          .ok (message, after) →
      (Keeps values (meanwhile ++ late).flatten prompt continuation (messagesSummarized message)
          after.values ↔ Locatable values (meanwhile ++ late).flatten prompt continuation) ∧
      ∀ first rest r, continuation = first :: rest → InOrder values prompt first r →
        values.length < 2 ^ 32 →
          (Keeps values (meanwhile ++ late).flatten prompt continuation
              (messagesSummarized message) after.values ↔
            Boundary values r (continuation.map PromptMessage.message))) ∧
    ((∀ b, ¬Boundary values b (continuation.map PromptMessage.message)) →
      ∀ result, summarizeSessionFromPrompt fromStr request createdAt provider journal.tables found
        now (prompt.map PromptMessage.message) (continuation.map PromptMessage.message) ≠
          .ok result) := by
  intro values prompt continuation
  obtain ⟨hfoundIndexed, hfoundValues⟩ := appendBatches_ok journal.indexed hfound
  obtain ⟨hnowIndexed, hnowValues⟩ := appendBatches_ok hfoundIndexed hnow
  have hlocated : ∀ {message : Json} {after : SessionTables},
      summarizeSessionFromPrompt fromStr request createdAt provider journal.tables found now
        (prompt.map PromptMessage.message) (continuation.map PromptMessage.message) =
          .ok (message, after) →
      ∃ summary reply b, (∀ b', Boundary values b'
          (continuation.map PromptMessage.message) ↔ b' = b) ∧
        message = checkpointRecord provider summary reply createdAt b ∧
        after.values = now.values ++ [message] := by
    intro message after h
    obtain ⟨message', hprepare, h⟩ := bind_eq_ok.mp h
    obtain ⟨after', happend, h⟩ := bind_eq_ok.mp h
    obtain ⟨rfl, rfl⟩ := Prod.mk.inj (Except.ok.inj h)
    obtain ⟨summary, reply, b, hfind, hmessage⟩ := prepareCheckpointFromPrompt_ok hprepare
    rw [tail_eq_length journal.indexed] at hfind
    exact ⟨summary, reply, b, findPreservedTailStart_ok hfoundIndexed hfoundValues hfind, hmessage,
      hnowIndexed.values_append (mapError_eq_ok.mp happend)⟩
  constructor
  · intro message after h
    obtain ⟨summary, reply, b, hboundary, rfl, hafter⟩ := hlocated h
    have hb := ((hboundary b).mpr rfl).le
    have hvalues : after.values = values ++ (meanwhile ++ late).flatten ++
        [checkpointRecord provider summary reply createdAt b] := by
      rw [hafter, hnowValues, hfoundValues, List.flatten_append, List.append_assoc,
        List.append_assoc, List.append_assoc, List.append_assoc]
    have hstart : messagesSummarized (checkpointRecord provider summary reply createdAt b) =
        toU32 b := rfl
    have hle : b ≤ (values ++ (meanwhile ++ late).flatten).length := by
      rw [List.length_append]
      omega
    have hkeeps : Keeps values (meanwhile ++ late).flatten prompt continuation (toU32 b)
        after.values ↔ Locatable values (meanwhile ++ late).flatten prompt continuation := by
      rw [hvalues, locatable_iff hboundary]
      exact keeps_iff (isCheckpoint_checkpointRecord ..)
        (tailStart_checkpointRecord provider summary reply createdAt hle)
        (Nat.le_trans (toU32_le b) hb)
    rw [hstart]
    refine ⟨hkeeps, fun first rest r hcontinuation horder hlt => ?_⟩
    rw [hkeeps, hcontinuation]
    exact horder.locatable_iff hlt
  · intro hnone ⟨message, after⟩ h
    obtain ⟨summary, reply, b, hboundary, -⟩ := hlocated h
    exact hnone b ((hboundary b).mpr rfl)

/-! ## Two tool rounds -/

def userRecord (text : String) : Json := .obj [("role", .str "user"), ("content", .str text)]

def callRecord (id : String) : Json :=
  .obj
    [("role", .str "assistant"), ("content", .str ""),
      ("tool_calls", .arr [.obj [("id", .str id), ("type", .str "function"),
        ("function", .obj [("name", .str "exec"), ("arguments", .str "\x7b\x7d")])]])]

def resultRecord (id : String) : Json :=
  .obj [("role", .str "tool"), ("tool_call_id", .str id), ("content", .str "output")]

def callMessage (id : String) : ChatMessage :=
  .assistant none [{ id, name := "exec", arguments := .obj [], argumentDiagnostic := none }] none []
    none

def summarizer : SummaryProvider where
  id := "model"
  name := "provider"
  maxOutputTokens := some 1024
  stream := fun _ _ => .ok { text := some "summary", inputTokens := 10, outputTokens := 5 }

def appendedTables (records : List Json) : SessionTables :=
  match append refusing.fromStr (clearJournal .empty) records 0 with
  | .ok t => t
  | .error _ => .empty

def twoRounds : List Json :=
  [userRecord "go on", callRecord "call-1", resultRecord "call-1", callRecord "call-2",
    resultRecord "call-2"]

def twoRoundsJournal : SessionJournal refusing.fromStr where
  tables := appendedTables twoRounds
  indexed := Indexed.append (Indexed.clearJournal .empty)
    (show append refusing.fromStr (clearJournal .empty) twoRounds 0 =
      .ok (appendedTables twoRounds) from rfl)

def twoRoundsMessages : List PromptMessage :=
  [⟨.system "system", []⟩, ⟨.user (.text "go on") none, [0]⟩, ⟨callMessage "call-1", [1]⟩,
    ⟨.tool "call-1" "output", [2]⟩, ⟨callMessage "call-2", [3]⟩, ⟨.tool "call-2" "output", [4]⟩]

theorem compaction_keeps_twoRounds : ∃ message after,
    summarizeSessionFromPrompt refusing.fromStr "summarize" 0 summarizer twoRoundsJournal.tables
      twoRoundsJournal.tables twoRoundsJournal.tables
      ((splitContextForCompaction twoRoundsMessages 4).1.map PromptMessage.message)
      ((splitContextForCompaction twoRoundsMessages 4).2.map PromptMessage.message) =
        .ok (message, after) ∧
    Keeps twoRounds [] (splitContextForCompaction twoRoundsMessages 4).1
      (splitContextForCompaction twoRoundsMessages 4).2 (messagesSummarized message)
      after.values := by
  have hrun : summarizeSessionFromPrompt refusing.fromStr "summarize" 0 summarizer
      twoRoundsJournal.tables twoRoundsJournal.tables twoRoundsJournal.tables
      ((splitContextForCompaction twoRoundsMessages 4).1.map PromptMessage.message)
      ((splitContextForCompaction twoRoundsMessages 4).2.map PromptMessage.message) =
        .ok (checkpointRecord summarizer "summary" ⟨some "summary", 10, 5⟩ 0 3,
          appendedTables (twoRounds ++
            [checkpointRecord summarizer "summary" ⟨some "summary", 10, 5⟩ 0 3])) := by rfl
  have hboundary : Boundary twoRounds 3
      ((splitContextForCompaction twoRoundsMessages 4).2.map PromptMessage.message) :=
    (findPreservedTailStart_ok twoRoundsJournal.indexed
      (show twoRoundsJournal.tables.values = twoRounds ++ [] from rfl)
      (show findPreservedTailStart twoRoundsJournal.tables 5 _ = .ok 3 from rfl) 3).mpr rfl
  have horder : InOrder twoRounds (splitContextForCompaction twoRoundsMessages 4).1
      ⟨callMessage "call-2", [3]⟩ 3 :=
    ⟨⟨mem_singleton_self 3, fun i hi => Nat.le_of_eq (mem_singleton.mp hi).symm⟩,
      ⟨(callRecord "call-2", 3), by decide, rfl⟩, by decide, by
        unfold InFront
        decide⟩
  exact ⟨_, _, hrun, (((@compaction_keeps_iff refusing.fromStr "summarize" 0 summarizer
    twoRoundsJournal [] [] _ _ rfl rfl twoRoundsMessages 4).1 _ _ hrun).2 _ _ 3 rfl horder
      (by decide)).mpr hboundary⟩

/-! ## A failed attempt before the first tool round -/

/-- The first attempt after a checkpoint fails, and its answer stays in the conversation. -/
def failedAttempt : List Json :=
  [userRecord "fix the build", callRecord "call-1", resultRecord "call-1",
    checkpointRecord summarizer "summary" ⟨some "summary", 10, 5⟩ 0 3,
    .obj [("role", .str "provider_update"), ("segmentId", .str "segment"), ("itemId", .str "item"),
      ("position", .num (.posInt 0)), ("updateSeq", .num (.posInt 1)),
      ("payload", .obj [("update_type", .str "message_delta"), ("delta", .str "the cause is")])],
    .obj [("role", .str "provider_segment_close"), ("segmentId", .str "segment"),
      ("outcome", .str "transport_error")],
    callRecord "call-2", resultRecord "call-2"]

def failedAttemptJournal : SessionJournal refusing.fromStr where
  tables := appendedTables failedAttempt
  indexed := Indexed.append (Indexed.clearJournal .empty)
    (show append refusing.fromStr (clearJournal .empty) failedAttempt 0 =
      .ok (appendedTables failedAttempt) from rfl)

def failedAttemptMessages : List PromptMessage :=
  [⟨.system "system", []⟩,
    ⟨.user (.text "<conversation-summary>\nsummary\n</conversation-summary>") none, [3]⟩,
    ⟨.assistant (some "the cause is") [] none [] (some "segment"), [4, 5]⟩,
    ⟨callMessage "call-2", [6]⟩, ⟨.tool "call-2" "output", [7]⟩]

/-- The continuation starts with the answer of the failed attempt, but the checkpoint keeps the
records from the tool round on. -/
theorem failedAttempt_lost : ∃ message after,
    summarizeSessionFromPrompt refusing.fromStr "summarize" 0 summarizer
      failedAttemptJournal.tables failedAttemptJournal.tables failedAttemptJournal.tables
      ((splitContextForCompaction failedAttemptMessages 2).1.map PromptMessage.message)
      ((splitContextForCompaction failedAttemptMessages 2).2.map PromptMessage.message) =
        .ok (message, after) ∧
    (∃ entry ∈ orderedValues failedAttempt, entry.2 = 4 ∧ entry ∉ orderedValues after.values ∧
      ∀ m ∈ (splitContextForCompaction failedAttemptMessages 2).1, entry.2 ∉ m.records) ∧
    ¬Keeps failedAttempt [] (splitContextForCompaction failedAttemptMessages 2).1
      (splitContextForCompaction failedAttemptMessages 2).2 (messagesSummarized message)
      after.values := by
  have hlost : ∃ entry ∈ orderedValues failedAttempt, entry.2 = 4 ∧
      entry ∉ orderedValues (failedAttempt ++
        [checkpointRecord summarizer "summary" ⟨some "summary", 10, 5⟩ 0 6]) ∧
      ∀ m ∈ (splitContextForCompaction failedAttemptMessages 2).1, entry.2 ∉ m.records := by
    decide
  refine ⟨checkpointRecord summarizer "summary" ⟨some "summary", 10, 5⟩ 0 6, _, rfl, hlost,
    fun h => ?_⟩
  obtain ⟨entry, hactive, -, hunloaded, hunprompted⟩ := hlost
  rcases h.active entry hactive with ⟨m, hm, hrecord⟩ | ⟨-, hloaded⟩
  · exact hunprompted m hm hrecord
  · exact hunloaded hloaded

end Chelix.Chat
