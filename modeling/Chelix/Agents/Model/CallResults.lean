import Chelix.Agents.Model.AbortedCalls

/-!
# Which conversations the repair completes

For one call identity a conversation is a word of two letters: a message issues the call, or
it answers it.  A request is well formed when every issue is followed, before the next issue
of the same identity, by a result.
-/

namespace Chelix.Agents.Model

open Chelix.Common List ChatMessage

/-! ## Words of calls -/

/-- What a message does with one call. -/
inductive CallEvent where
  | issue
  | result
  deriving DecidableEq

def ChatMessage.callEvents (id : String) (m : ChatMessage) : List CallEvent :=
  if id ∈ m.callIds then [.issue] else if m.answers = some id then [.result] else []

/-- What a conversation does with one call, in order. -/
def callWord (id : String) (messages : List ChatMessage) : List CallEvent :=
  messages.flatMap (ChatMessage.callEvents id)

/-- Every issue has a result before the next issue. -/
def Paired : List CallEvent → Prop
  | [] => True
  | .result :: w => Paired w
  | .issue :: w => w.head? = some .result ∧ Paired w

/-- The words that the repair completes: those that are paired already, and a single issue
without any result. -/
def Repairable (w : List CallEvent) : Prop :=
  (.result ∉ w ∧ w.length ≤ 1) ∨ Paired w

/-- **A well-formed request**: every call of a message has a result after the message and
before the next message that issues the same call. -/
def WellFormed (messages : List ChatMessage) : Prop :=
  ∀ before m after id, messages = before ++ m :: after → id ∈ m.callIds →
    ∃ between content rest, after = between ++ .tool id content :: rest ∧
      ∀ m' ∈ between, id ∉ m'.callIds

@[simp] theorem callWord_nil (id : String) : callWord id [] = [] := rfl

@[simp] theorem callWord_cons (id : String) (m : ChatMessage) (messages : List ChatMessage) :
    callWord id (m :: messages) = m.callEvents id ++ callWord id messages :=
  flatMap_cons ..

@[simp] theorem callWord_append (id : String) (messages messages' : List ChatMessage) :
    callWord id (messages ++ messages') = callWord id messages ++ callWord id messages' :=
  flatMap_append ..

theorem callEvents_tool (id toolCallId content : String) :
    (tool toolCallId content).callEvents id =
      if toolCallId = id then [.result] else [] := by
  simp [callEvents, callIds, answers]

variable {id : String}

theorem callEvents_of_mem {m : ChatMessage} (h : id ∈ m.callIds) : m.callEvents id = [.issue] :=
  if_pos h

variable (messages : List ChatMessage)

theorem head?_callWord_eq_result :
    (callWord id messages).head? = some .result ↔
      ∃ between content rest, messages = between ++ .tool id content :: rest ∧
        ∀ m ∈ between, id ∉ m.callIds := by
  induction messages with
  | nil => simp
  | cons m messages ih =>
    rw [callWord_cons]
    by_cases hissue : id ∈ m.callIds
    · rw [callEvents_of_mem hissue]
      constructor
      · intro h
        cases h
      · rintro ⟨between, content, rest, heq, hbetween⟩
        cases between with
        | nil =>
          obtain ⟨rfl, -⟩ := List.cons.inj heq
          simp [callIds] at hissue
        | cons m' between =>
          obtain ⟨rfl, -⟩ := List.cons.inj heq
          exact absurd hissue (hbetween m (mem_cons_self ..))
    · by_cases hanswer : m.answers = some id
      · have hevents : m.callEvents id = [.result] := by
          rw [callEvents, if_neg hissue, if_pos hanswer]
        rw [hevents]
        refine ⟨fun _ => ?_, fun _ => rfl⟩
        cases m with
        | tool toolCallId content =>
          obtain rfl : toolCallId = id := Option.some_inj.mp hanswer
          exact ⟨[], content, messages, rfl, fun _ h => (not_mem_nil h).elim⟩
        | system _ | user _ _ | assistant _ _ _ _ _ => cases hanswer
      · have hevents : m.callEvents id = [] := by
          rw [callEvents, if_neg hissue, if_neg hanswer]
        rw [hevents, nil_append, ih]
        constructor
        · rintro ⟨between, content, rest, rfl, hbetween⟩
          refine ⟨m :: between, content, rest, rfl, fun m' hm' => ?_⟩
          rcases mem_cons.mp hm' with rfl | hm'
          · exact hissue
          · exact hbetween m' hm'
        · rintro ⟨between, content, rest, heq, hbetween⟩
          cases between with
          | nil =>
            obtain ⟨rfl, -⟩ := List.cons.inj heq
            exact absurd rfl hanswer
          | cons m' between =>
            obtain ⟨-, rfl⟩ := List.cons.inj heq
            exact ⟨between, content, rest, rfl, fun m' hm' =>
              hbetween m' (mem_cons_of_mem _ hm')⟩

theorem paired_append_of_no_issue {v w : List CallEvent} (hv : .issue ∉ v) :
    Paired (v ++ w) ↔ Paired w := by
  induction v with
  | nil => rfl
  | cons e v ih =>
    rw [mem_cons, not_or] at hv
    cases e with
    | issue => exact absurd rfl hv.1
    | result => exact ih hv.2

theorem issue_mem_callEvents {m : ChatMessage} : .issue ∈ m.callEvents id ↔ id ∈ m.callIds := by
  unfold callEvents
  split
  · simp [*]
  · split <;> simp [*]

/-- **Well formed is paired**, for each identity on its own. -/
theorem wellFormed_iff :
    WellFormed messages ↔ ∀ id, Paired (callWord id messages) := by
  have hid : ∀ id, (∀ before m after, messages = before ++ m :: after → id ∈ m.callIds →
      ∃ between content rest, after = between ++ .tool id content :: rest ∧
        ∀ m' ∈ between, id ∉ m'.callIds) ↔ Paired (callWord id messages) := by
    intro id
    induction messages with
    | nil => simp [Paired]
    | cons m messages ih =>
      rw [callWord_cons]
      have hsplit : (∀ before m' after, m :: messages = before ++ m' :: after → id ∈ m'.callIds →
            ∃ between content rest, after = between ++ .tool id content :: rest ∧
              ∀ m' ∈ between, id ∉ m'.callIds) ↔
          (id ∈ m.callIds → (callWord id messages).head? = some .result) ∧
            Paired (callWord id messages) := by
        rw [← ih, head?_callWord_eq_result]
        constructor
        · intro h
          exact ⟨h [] m messages rfl, fun before m' after heq =>
            h (m :: before) m' after (by rw [heq, cons_append])⟩
        · rintro ⟨hhead, htail⟩ before m' after heq hissue
          cases before with
          | nil =>
            obtain ⟨rfl, rfl⟩ := List.cons.inj heq
            exact hhead hissue
          | cons m'' before =>
            obtain ⟨-, rfl⟩ := List.cons.inj heq
            exact htail before m' after rfl hissue
      rw [hsplit]
      by_cases hissue : id ∈ m.callIds
      · rw [callEvents_of_mem hissue]
        simp only [hissue, true_implies, singleton_append, Paired]
      · rw [paired_append_of_no_issue (mt issue_mem_callEvents.mp hissue)]
        simp only [hissue, false_implies, true_and]
  constructor
  · intro h id
    exact (hid id).mp fun before m after => h before m after id
  · intro h before m after id
    exact (hid id).mpr (h id) before m after

/-! ## The repair as one pass -/

/-- The calls of a message that nothing answers and no message issued before. -/
def newIds (answered : List String) : List String → List String → List String
  | _, [] => []
  | seen, id :: ids =>
    if id ∈ answered ∨ id ∈ seen then newIds answered seen ids
    else id :: newIds answered (seen ++ [id]) ids

def abortedResult (id : String) : ChatMessage := .tool id abortedToolResult

/-- The pass from the front: after each message, the results of its new calls. -/
def repair (answered : List String) : List String → List ChatMessage → List ChatMessage
  | _, [] => []
  | seen, m :: messages =>
    let new := newIds answered seen m.callIds
    m :: (new.map abortedResult ++ repair answered (seen ++ new) messages)

variable {answered seen : List String}

theorem mem_newIds {ids : List String} :
    id ∈ newIds answered seen ids ↔ id ∈ ids ∧ id ∉ answered ∧ id ∉ seen := by
  induction ids generalizing seen with
  | nil => simp [newIds]
  | cons first ids ih =>
    rw [newIds]
    by_cases hfirst : first ∈ answered ∨ first ∈ seen
    · rw [if_pos hfirst, ih, mem_cons]
      constructor
      · rintro ⟨hid, hnew⟩
        exact ⟨Or.inr hid, hnew⟩
      · rintro ⟨rfl | hid, hnew⟩
        · exact absurd hfirst (not_or.mpr hnew)
        · exact ⟨hid, hnew⟩
    · rw [if_neg hfirst, mem_cons, ih, mem_cons, mem_append, mem_singleton]
      rw [not_or] at hfirst
      by_cases hid : id = first
      · subst hid
        simp [hfirst]
      · simp [hid]

theorem nodup_newIds (answered seen ids : List String) : (newIds answered seen ids).Nodup := by
  induction ids generalizing seen with
  | nil => exact nodup_nil
  | cons first ids ih =>
    rw [newIds]
    split
    · exact ih seen
    · refine nodup_cons.mpr ⟨fun h => ?_, ih _⟩
      exact (mem_newIds.mp h).2.2 (mem_append_right _ (mem_singleton_self _))

theorem collectMissing_eq (answered : List String) (index : ℕ) (callIds : List String)
    (missing : List (ℕ × String)) :
    collectMissing answered index callIds missing =
      missing ++ (newIds answered (missing.map Prod.snd) callIds).map fun id => (index, id) := by
  induction callIds generalizing missing with
  | nil => simp [collectMissing, newIds]
  | cons id ids ih =>
    have hany : (missing.any fun entry => decide (entry.2 = id)) = true ↔
        id ∈ missing.map Prod.snd := by
      simp [any_eq_true]
    rw [collectMissing, foldl_cons, ← collectMissing, newIds]
    by_cases hanswered : id ∈ answered
    · rw [if_pos hanswered, if_pos (Or.inl hanswered), ih]
    · rw [if_neg hanswered]
      by_cases hseen : id ∈ missing.map Prod.snd
      · rw [if_pos (hany.mpr hseen), if_pos (Or.inr hseen), ih]
      · rw [if_neg (mt hany.mp hseen), if_neg (not_or.mpr ⟨hanswered, hseen⟩), ih,
          map_append, map_singleton, map_cons, append_assoc,
          singleton_append]

/-- The missing results of a conversation whose messages are numbered from `start`. -/
def missingFrom (answered : List String) : List String → ℕ → List ChatMessage →
    List (ℕ × String)
  | _, _, [] => []
  | seen, start, m :: messages =>
    let new := newIds answered seen m.callIds
    (new.map fun id => (start, id)) ++ missingFrom answered (seen ++ new) (start + 1) messages

theorem foldl_collectMissing (answered : List String) (messages : List ChatMessage) (start : ℕ)
    (missing : List (ℕ × String)) :
    (messages.zipIdx start).foldl (fun missing entry =>
        collectMissing answered entry.2 entry.1.callIds missing) missing =
      missing ++ missingFrom answered (missing.map Prod.snd) start messages := by
  induction messages generalizing start missing with
  | nil => simp [missingFrom]
  | cons m messages ih =>
    rw [zipIdx_cons, foldl_cons, ih, collectMissing_eq, missingFrom, map_append,
      map_map, append_assoc]
    have hids : (newIds answered (missing.map Prod.snd) m.callIds).map
        (Prod.snd ∘ fun id => (start, id)) =
          newIds answered (missing.map Prod.snd) m.callIds :=
      map_id _
    rw [hids]

theorem missingFrom_succ (answered seen : List String) (start : ℕ)
    (messages : List ChatMessage) :
    missingFrom answered seen (start + 1) messages =
      (missingFrom answered seen start messages).map fun entry => (entry.1 + 1, entry.2) := by
  induction messages generalizing seen start with
  | nil => rfl
  | cons m messages ih =>
    rw [missingFrom, missingFrom, map_append, map_map, ih]
    rfl

/-- The insertion of results, each after the message with its index, from the back. -/
def insertAll (entries : List (ℕ × String)) (messages : List ChatMessage) : List ChatMessage :=
  entries.foldr (fun entry messages => messages.insertIdx (entry.1 + 1) (abortedResult entry.2))
    messages

theorem insertAll_succ (entries : List (ℕ × String)) (m : ChatMessage)
    (messages : List ChatMessage) :
    insertAll (entries.map fun entry => (entry.1 + 1, entry.2)) (m :: messages) =
      m :: insertAll entries messages := by
  induction entries with
  | nil => rfl
  | cons entry entries ih =>
    rw [insertAll, map_cons, foldr_cons, ← insertAll, ih, insertIdx_succ_cons]
    rfl

theorem insertAll_head (ids : List String) (m : ChatMessage) (messages : List ChatMessage) :
    insertAll (ids.map fun id => (0, id)) (m :: messages) =
      m :: (ids.map abortedResult ++ messages) := by
  induction ids with
  | nil => rfl
  | cons id ids ih =>
    rw [insertAll, map_cons, foldr_cons, ← insertAll, ih, insertIdx_succ_cons,
      insertIdx_zero, map_cons, cons_append]

theorem insertAll_missingFrom (answered seen : List String) (messages : List ChatMessage) :
    insertAll (missingFrom answered seen 0 messages) messages = repair answered seen messages := by
  induction messages generalizing seen with
  | nil => rfl
  | cons m messages ih =>
    rw [missingFrom, repair, missingFrom_succ, insertAll, foldr_append, ← insertAll,
      ← insertAll, insertAll_succ, ih, insertAll_head]

/-- **The insertion from the back is the pass from the front.** -/
theorem ensureToolCallResultsPresent_eq_repair :
    ensureToolCallResultsPresent messages =
      repair (messages.filterMap answers) [] messages := by
  rw [ensureToolCallResultsPresent, foldl_reverse, missingResults, foldl_collectMissing,
    nil_append]
  exact insertAll_missingFrom _ _ messages

/-! ## The words of a repaired conversation -/

theorem callWord_map_abortedResult {ids : List String} (hids : ids.Nodup) :
    callWord id (ids.map abortedResult) = if id ∈ ids then [.result] else [] := by
  induction ids with
  | nil => rfl
  | cons first ids ih =>
    rw [nodup_cons] at hids
    rw [map_cons, callWord_cons, abortedResult, callEvents_tool, ih hids.2]
    by_cases hfirst : first = id
    · subst hfirst
      simp [hids.1]
    · simp [hfirst, Ne.symm hfirst]

theorem callWord_repair_of_known (hid : id ∈ answered ∨ id ∈ seen) (messages : List ChatMessage) :
    callWord id (repair answered seen messages) = callWord id messages := by
  induction messages generalizing seen with
  | nil => rfl
  | cons m messages ih =>
    have hnew : id ∉ newIds answered seen m.callIds := by
      rw [mem_newIds]
      rintro ⟨-, hanswered, hseen⟩
      exact hid.elim hanswered hseen
    rw [repair, callWord_cons, callWord_cons, callWord_append,
      callWord_map_abortedResult (nodup_newIds ..), if_neg hnew, nil_append,
      ih (hid.imp_right (mem_append_left _))]

/-- A call without any result gets one, directly after its first issue. -/
theorem callWord_repair_of_new (hanswered : id ∉ answered) (hseen : id ∉ seen)
    (messages : List ChatMessage) (hnone : .result ∉ callWord id messages) :
    callWord id (repair answered seen messages) =
      match callWord id messages with
      | [] => []
      | e :: w => e :: .result :: w := by
  induction messages generalizing seen with
  | nil => rfl
  | cons m messages ih =>
    rw [callWord_cons, mem_append, not_or] at hnone
    rw [repair, callWord_cons, callWord_cons, callWord_append,
      callWord_map_abortedResult (nodup_newIds ..)]
    by_cases hissue : id ∈ m.callIds
    · have hnew : id ∈ newIds answered seen m.callIds :=
        mem_newIds.mpr ⟨hissue, hanswered, hseen⟩
      rw [if_pos hnew, callWord_repair_of_known (Or.inr (mem_append_right _ hnew)),
        callEvents_of_mem hissue]
      rfl
    · have hnew : id ∉ newIds answered seen m.callIds := fun h => hissue (mem_newIds.mp h).1
      have hanswer : m.answers ≠ some id := by
        intro h
        rw [callEvents, if_neg hissue, if_pos h] at hnone
        exact hnone.1 (mem_singleton_self _)
      have hevents : m.callEvents id = [] := by
        rw [callEvents, if_neg hissue, if_neg hanswer]
      rw [if_neg hnew, hevents, nil_append, nil_append, nil_append,
        ih (fun h => (mem_append.mp h).elim hseen hnew) hnone.2]

theorem result_mem_callWord {messages : List ChatMessage} :
    .result ∈ callWord id messages ↔ id ∈ messages.filterMap answers := by
  rw [callWord, mem_flatMap, mem_filterMap]
  refine exists_congr fun m => and_congr_right fun _ => ?_
  unfold callEvents
  cases m with
  | tool toolCallId content | system _ | user _ _ => simp [callIds, answers]
  | assistant _ _ _ _ _ =>
    simp only [answers, reduceCtorEq, iff_false, if_false]
    split <;> simp

theorem paired_of_no_result {w : List CallEvent} (hw : .result ∉ w) : Paired w ↔ w = [] := by
  cases w with
  | nil => simp [Paired]
  | cons e w =>
    cases e with
    | result => exact absurd (mem_cons_self ..) hw
    | issue =>
      simp only [Paired, reduceCtorEq, iff_false, not_and]
      intro hhead
      exact absurd (mem_cons_of_mem _ (mem_of_mem_head? hhead)) hw

/-- **When the repair completes a conversation**: exactly when the word of every call identity
is repairable. -/
theorem wellFormed_ensureToolCallResultsPresent_iff :
    WellFormed (ensureToolCallResultsPresent messages) ↔
      ∀ id, Repairable (callWord id messages) := by
  rw [wellFormed_iff]
  refine forall_congr' fun id => ?_
  rw [ensureToolCallResultsPresent_eq_repair, Repairable]
  by_cases hanswered : id ∈ messages.filterMap answers
  · rw [callWord_repair_of_known (Or.inl hanswered)]
    have hresult := result_mem_callWord.mpr hanswered
    simp [hresult]
  · have hnone := mt result_mem_callWord.mp hanswered
    rw [callWord_repair_of_new hanswered not_mem_nil messages hnone]
    have hpaired := paired_of_no_result hnone
    cases hw : callWord id messages with
    | nil => simp [Paired]
    | cons e w =>
      rw [hw] at hnone hpaired
      cases e with
      | result => exact absurd (mem_cons_self ..) hnone
      | issue =>
        have htail : .result ∉ w := fun h => hnone (mem_cons_of_mem _ h)
        have hpaired' := paired_of_no_result htail
        simp only [Paired, List.head?_cons, true_and, hpaired', hnone, not_false_eq_true,
          length_cons]
        cases w with
        | nil | cons e' w => simp

end Chelix.Agents.Model
