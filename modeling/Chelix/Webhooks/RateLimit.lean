import Chelix.Library.Expiry

/-!
# Rate limits of webhooks

Per-webhook and global sliding windows over the calls that were accepted.  Times are natural
numbers of milliseconds.

* **`rate_limit_exact`**: which calls are accepted.
-/

namespace Chelix.Webhooks

open Chelix.Library List

/-- The queues of the accepted calls, for each webhook and for all. -/
structure RateLimitState where
  perWebhook : ℤ → List ℕ
  global : List ℕ

structure RateCall where
  webhookId : ℤ
  perWebhookMax : ℕ
  now : ℕ
  deriving DecidableEq

/-- The width of a window, one minute. -/
def rateWindow : ℕ := 60000

section Check

variable (globalMax : ℕ)

def RateLimitState.start : RateLimitState := ⟨fun _ => [], []⟩

/-- Whether a call is allowed.  Each queue is pruned before it is looked at. -/
def RateLimitState.check (s : RateLimitState) (call : RateCall) : RateLimitState × Bool :=
  let windowStart := call.now - rateWindow
  let global := pruneBefore windowStart s.global
  if globalMax ≤ global.length then (⟨s.perWebhook, global⟩, false)
  else
    let window := pruneBefore windowStart (s.perWebhook call.webhookId)
    if call.perWebhookMax ≤ window.length then
      (⟨Function.update s.perWebhook call.webhookId window, global⟩, false)
    else
      (⟨Function.update s.perWebhook call.webhookId (window ++ [call.now]),
        global ++ [call.now]⟩, true)

/-! ## Histories -/

/-- The next state, and the accepted calls with this one if it is allowed. -/
def checkNext (s : RateLimitState × List RateCall) (call : RateCall) :
    RateLimitState × List RateCall :=
  ((s.1.check globalMax call).1,
    if (s.1.check globalMax call).2 then s.2 ++ [call] else s.2)

def history (calls : List RateCall) : RateLimitState × List RateCall :=
  calls.foldl (checkNext globalMax) (.start, [])

/-- The calls that were accepted. -/
def accepted (calls : List RateCall) : List RateCall := (history globalMax calls).2

/-- The answer to a call after others. -/
def answer (before : List RateCall) (call : RateCall) : Bool :=
  ((history globalMax before).1.check globalMax call).2

theorem history_append_singleton (calls : List RateCall) (call : RateCall) :
    history globalMax (calls ++ [call]) = checkNext globalMax (history globalMax calls) call := by
  unfold history
  rw [foldl_append, foldl_cons, foldl_nil]

theorem accepted_append_singleton (calls : List RateCall) (call : RateCall) :
    accepted globalMax (calls ++ [call]) =
      if answer globalMax calls call then accepted globalMax calls ++ [call]
      else accepted globalMax calls := by
  unfold accepted
  rw [history_append_singleton]
  rfl

theorem accepted_sublist (calls : List RateCall) : (accepted globalMax calls).Sublist calls := by
  induction calls using List.reverseRecOn with
  | nil => exact List.Sublist.refl _
  | append_singleton calls call ih =>
    rw [accepted_append_singleton]
    split
    · exact ih.append (List.Sublist.refl _)
    · exact ih.trans (sublist_append_left _ _)

end Check

/-! ## Counting -/

def instants (calls : List RateCall) : List ℕ := calls.map RateCall.now

def callsOf (webhookId : ℤ) (calls : List RateCall) : List RateCall :=
  calls.filter fun call => call.webhookId = webhookId

/-- How many calls are between two instants. -/
def countBetween (first last : ℕ) (calls : List RateCall) : ℕ :=
  calls.countP fun call => first ≤ call.now && call.now ≤ last

/-- The clock does not go back. -/
def InOrder (calls : List RateCall) : Prop := (instants calls).Pairwise (· ≤ ·)

instance (calls : List RateCall) : Decidable (InOrder calls) :=
  inferInstanceAs (Decidable (List.Pairwise _ _))

/-- Both queues stand for the accepted calls. -/
structure Windows (now : ℕ) (s : RateLimitState × List RateCall) : Prop where
  global : Tracks rateWindow now s.1.global (instants s.2)
  perWebhook : ∀ webhookId, Tracks rateWindow now (s.1.perWebhook webhookId)
    (instants (callsOf webhookId s.2))

section Law

variable {globalMax now : ℕ} {calls : List RateCall} {call : RateCall}

theorem length_filter_instants (hle : ∀ call ∈ calls, call.now ≤ now) (first : ℕ) :
    ((instants calls).filter (first ≤ ·)).length = countBetween first now calls := by
  unfold instants countBetween
  rw [← countP_eq_length_filter, countP_map]
  refine countP_congr fun call hmem => ?_
  have hcall := hle call hmem
  simp only [Function.comp_apply, decide_eq_true_eq, Bool.and_eq_true, hcall, and_true]

theorem Windows.mono {s : RateLimitState × List RateCall} {later : ℕ} (h : Windows now s)
    (hle : now ≤ later) : Windows later s :=
  ⟨h.global.mono hle, fun webhookId => (h.perWebhook webhookId).mono hle⟩

theorem callsOf_append_self (calls : List RateCall) (call : RateCall) :
    callsOf call.webhookId (calls ++ [call]) = callsOf call.webhookId calls ++ [call] := by
  unfold callsOf
  rw [filter_append, filter_cons_of_pos (by simp), filter_nil]

theorem callsOf_append_other {webhookId : ℤ} (calls : List RateCall)
    (hne : call.webhookId ≠ webhookId) :
    callsOf webhookId (calls ++ [call]) = callsOf webhookId calls := by
  unfold callsOf
  rw [filter_append, filter_cons_of_neg (by simpa using hne), filter_nil,
    append_nil]

/-- **One call keeps both queues.** -/
theorem Windows.next {s : RateLimitState × List RateCall} (h : Windows call.now s) :
    Windows call.now (checkNext globalMax s call) := by
  have hpruned : ∀ webhookId, Tracks rateWindow call.now
      (Function.update s.1.perWebhook call.webhookId
        (pruneBefore (call.now - rateWindow) (s.1.perWebhook call.webhookId)) webhookId)
      (instants (callsOf webhookId s.2)) := by
    intro webhookId
    by_cases heq : webhookId = call.webhookId
    · subst heq
      rw [Function.update_self]
      exact (h.perWebhook _).prune
    · rw [Function.update_of_ne heq]
      exact h.perWebhook webhookId
  unfold checkNext RateLimitState.check
  by_cases hglobal : globalMax ≤ (pruneBefore (call.now - rateWindow) s.1.global).length
  · simp only [hglobal, if_true, Bool.false_eq_true, if_false]
    exact ⟨h.global.prune, h.perWebhook⟩
  by_cases hown : call.perWebhookMax ≤
      (pruneBefore (call.now - rateWindow) (s.1.perWebhook call.webhookId)).length
  · simp only [hglobal, hown, if_true, Bool.false_eq_true, if_false]
    exact ⟨h.global.prune, hpruned⟩
  · simp only [hglobal, hown, if_true, if_false]
    refine ⟨?_, fun webhookId => ?_⟩
    · simp only [instants, map_append, map_singleton]
      exact h.global.prune.push
    · change Tracks rateWindow call.now (Function.update s.1.perWebhook call.webhookId
        (pruneBefore (call.now - rateWindow) (s.1.perWebhook call.webhookId) ++ [call.now])
          webhookId) (instants (callsOf webhookId (s.2 ++ [call])))
      by_cases heq : webhookId = call.webhookId
      · subst heq
        rw [Function.update_self, callsOf_append_self, instants, map_append,
          map_singleton]
        exact (h.perWebhook _).prune.push
      · rw [Function.update_of_ne heq, callsOf_append_other _ (Ne.symm heq)]
        exact h.perWebhook webhookId

theorem inOrder_append_singleton (h : InOrder (calls ++ [call])) :
    InOrder calls ∧ ∀ earlier ∈ calls, earlier.now ≤ call.now := by
  unfold InOrder instants at h
  rw [map_append, pairwise_append] at h
  refine ⟨h.1, fun earlier hmem => ?_⟩
  exact h.2.2 _ (mem_map_of_mem hmem) _ mem_cons_self

theorem windows_history (h : InOrder calls) (hle : ∀ call ∈ calls, call.now ≤ now) :
    Windows now (history globalMax calls) := by
  induction calls using List.reverseRecOn generalizing now with
  | nil => exact ⟨Tracks.nil _ _, fun _ => Tracks.nil _ _⟩
  | append_singleton calls call ih =>
    obtain ⟨hcalls, hcall⟩ := inOrder_append_singleton h
    rw [history_append_singleton]
    exact (ih hcalls hcall).next.mono (hle call (by simp))

/-- **A call is accepted if both counts leave room.** -/
theorem answer_iff (h : InOrder (calls ++ [call])) :
    answer globalMax calls call = true ↔
      countBetween (call.now - rateWindow) call.now (accepted globalMax calls) < globalMax ∧
      countBetween (call.now - rateWindow) call.now
        (callsOf call.webhookId (accepted globalMax calls)) < call.perWebhookMax := by
  obtain ⟨hcalls, hcall⟩ := inOrder_append_singleton h
  have hwindows : Windows call.now (history globalMax calls) := windows_history hcalls hcall
  have hle : ∀ earlier ∈ accepted globalMax calls, earlier.now ≤ call.now := fun earlier hmem =>
    hcall earlier ((accepted_sublist globalMax calls).mem hmem)
  have hglobal : (pruneBefore (call.now - rateWindow) (history globalMax calls).1.global).length =
      countBetween (call.now - rateWindow) call.now (accepted globalMax calls) := by
    rw [hwindows.global.pruneBefore_eq]
    exact length_filter_instants hle _
  have hown : (pruneBefore (call.now - rateWindow)
      ((history globalMax calls).1.perWebhook call.webhookId)).length =
        countBetween (call.now - rateWindow) call.now
          (callsOf call.webhookId (accepted globalMax calls)) := by
    rw [(hwindows.perWebhook _).pruneBefore_eq]
    exact length_filter_instants (fun earlier hmem => hle earlier (mem_filter.mp hmem).1) _
  unfold answer RateLimitState.check
  simp only [hglobal, hown]
  split
  · exact iff_of_false Bool.false_ne_true (by omega)
  · split
    · exact iff_of_false Bool.false_ne_true (by omega)
    · exact iff_of_true rfl (by omega)

theorem answer_congr {others : List RateCall} (h : InOrder (calls ++ [call]))
    (h' : InOrder (others ++ [call]))
    (heq : accepted globalMax calls = accepted globalMax others) :
    answer globalMax calls call = answer globalMax others call := by
  rw [Bool.eq_iff_iff, answer_iff h, answer_iff h', heq]

theorem accepted_without_rejected {mid : List RateCall} (h : InOrder (calls ++ call :: mid))
    (hrejected : answer globalMax calls call = false) :
    accepted globalMax (calls ++ call :: mid) = accepted globalMax (calls ++ mid) := by
  induction mid using List.reverseRecOn with
  | nil =>
    rw [accepted_append_singleton, hrejected, append_nil]
    rfl
  | append_singleton mid last ih =>
    have hassoc : calls ++ call :: (mid ++ [last]) = calls ++ call :: mid ++ [last] := by simp
    rw [hassoc] at h ⊢
    have hshort : InOrder (calls ++ mid ++ [last]) := by
      refine List.Pairwise.sublist (List.Sublist.map _ ?_) h
      exact ((sublist_cons_self call mid).append_left calls).append_right [last]
    have hsame := ih (inOrder_append_singleton h).1
    rw [← append_assoc, accepted_append_singleton, accepted_append_singleton, hsame,
      answer_congr h hshort hsame]

/-- **No window holds more accepted calls than the limit.** -/
theorem countBetween_accepted_le (h : InOrder calls) (first : ℕ) :
    countBetween first (first + rateWindow) (accepted globalMax calls) ≤ globalMax := by
  induction calls using List.reverseRecOn with
  | nil => exact Nat.zero_le _
  | append_singleton calls call ih =>
    obtain ⟨hcalls, hcall⟩ := inOrder_append_singleton h
    rw [accepted_append_singleton]
    split
    · next haccept =>
      have hroom := ((answer_iff h).mp haccept).1
      unfold countBetween at ih ⊢
      rw [countP_append, countP_singleton]
      split
      · next hin =>
        -- the window holds this call, so the accepted calls in it are those that were counted
        simp only [Bool.and_eq_true, decide_eq_true_eq] at hin
        have hmono : (accepted globalMax calls).countP
            (fun earlier => first ≤ earlier.now && earlier.now ≤ first + rateWindow) ≤
              countBetween (call.now - rateWindow) call.now (accepted globalMax calls) := by
          refine countP_mono_left fun earlier hmem hearlier => ?_
          have hle := hcall earlier ((accepted_sublist globalMax calls).mem hmem)
          simp only [Bool.and_eq_true, decide_eq_true_eq] at hearlier ⊢
          omega
        omega
      · exact ih hcalls
    · exact ih hcalls

end Law

/-- **The rate limiter is an exact sliding window.**  A call is accepted if and only if both counts
of accepted calls within the last minute leave room; a rejected call changes no later answer; and no
minute holds more accepted calls than the global limit. -/
theorem rate_limit_exact (globalMax : ℕ) {calls : List RateCall} (h : InOrder calls) :
    (∀ before call after, calls = before ++ call :: after →
      (answer globalMax before call = true ↔
        countBetween (call.now - rateWindow) call.now (accepted globalMax before) < globalMax ∧
        countBetween (call.now - rateWindow) call.now
          (callsOf call.webhookId (accepted globalMax before)) < call.perWebhookMax)) ∧
    (∀ before call mid later after, calls = before ++ call :: (mid ++ later :: after) →
      answer globalMax before call = false →
        answer globalMax (before ++ call :: mid) later = answer globalMax (before ++ mid) later) ∧
    ∀ first, countBetween first (first + rateWindow) (accepted globalMax calls) ≤ globalMax := by
  have hsub : ∀ {part : List RateCall}, part.Sublist calls → InOrder part := fun hpart =>
    List.Pairwise.sublist (List.Sublist.map _ hpart) h
  refine ⟨?_, ?_, countBetween_accepted_le h⟩
  · rintro before call after rfl
    refine answer_iff (hsub ?_)
    exact (List.sublist_append_left [call] after).append_left before
  · rintro before call mid later after rfl hrejected
    have hmid : (mid ++ [later]).Sublist (mid ++ later :: after) :=
      (List.sublist_append_left [later] after).append_left mid
    have hlong : InOrder (before ++ call :: mid ++ [later]) := by
      refine hsub ?_
      rw [List.append_assoc, List.cons_append]
      exact (hmid.cons_cons call).append_left before
    have hshort : InOrder (before ++ mid ++ [later]) := by
      refine hsub ?_
      rw [List.append_assoc]
      exact (hmid.cons call).append_left before
    exact answer_congr hlong hshort
      (accepted_without_rejected (inOrder_append_singleton hlong).1 hrejected)

theorem rate_limit_exact_two_calls :
    countBetween 5 (5 + rateWindow) (accepted 1 [⟨1, 5, 0⟩, ⟨2, 5, 7⟩]) ≤ 1 :=
  (rate_limit_exact 1 (by decide : InOrder [⟨1, 5, 0⟩, ⟨2, 5, 7⟩])).2.2 5

end Chelix.Webhooks
