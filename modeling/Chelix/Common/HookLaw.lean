import Chelix.Common.Hooks

/-!
# What dispatching hooks guarantees
-/

namespace Chelix.Common

open Function

open Chelix.Library List HookCall HookWorld

variable {ν : Type*} {r : HookRegistry} {e : HookMove ν} {w w' : HookWorld ν}
  {trace : List (HookMove ν)}

/-! ## Registrations -/

namespace HookRegistry

def registerAll (r : HookRegistry) (hs : List HookHandler) : HookRegistry := hs.foldl register r

/-- The entries for an event that handlers make, the first of them with the given number. -/
def subscriptions (event : HookEvent) : List HookHandler → ℕ → List HandlerEntry
  | [], _ => []
  | handler :: hs, n =>
    (handler.events.filter fun other => other = event).map (fun _ => ⟨handler, n⟩) ++
      subscriptions event hs (n + 1)

theorem sortByKey_sortByKey_append (l l' : List HandlerEntry) :
    sortByKey order (sortByKey order l ++ l') = sortByKey order (l ++ l') := by
  refine eq_of_pairwise_of_part_eq (pairwise_sortByKey order _) (pairwise_sortByKey order _)
    fun k => ?_
  have hpart : ∀ m : List HandlerEntry, part order k (sortByKey order m) = part order k m := by
    intro m
    refine filter_sortByKey order fun a _ b _ ha hb => ?_
    rw [of_decide_eq_true ha, of_decide_eq_true hb]
  rw [hpart, hpart, part_append, part_append, hpart]

theorem foldl_subscribe_handlers (r : HookRegistry) (entry : HandlerEntry)
    (events : List HookEvent) {event : HookEvent} {l : List HandlerEntry}
    (hl : r.handlers event = sortByKey order l) :
    (events.foldl (fun r' event => r'.subscribe entry event) r).handlers event =
      sortByKey order (l ++ (events.filter fun other => other = event).map fun _ => entry) := by
  induction events generalizing r l with
  | nil => simpa using hl
  | cons first events ih =>
    by_cases hfirst : first = event
    · subst hfirst
      have hnext : (r.subscribe entry first).handlers first = sortByKey order (l ++ [entry]) := by
        simp only [subscribe, update_self]
        rw [hl, sortByKey_sortByKey_append]
      rw [foldl_cons, ih _ hnext]
      simp
    · have hnext : (r.subscribe entry first).handlers event = sortByKey order l := by
        simp only [subscribe, update_of_ne (Ne.symm hfirst)]
        exact hl
      rw [foldl_cons, ih _ hnext]
      simp [hfirst]

theorem foldl_subscribe_registered (r : HookRegistry) (entry : HandlerEntry)
    (events : List HookEvent) :
    (events.foldl (fun r' event => r'.subscribe entry event) r).registered = r.registered := by
  induction events generalizing r with
  | nil => rfl
  | cons first events ih => rw [foldl_cons, ih]; rfl

theorem handlers_registerAll (r : HookRegistry) (hs : List HookHandler) {event : HookEvent}
    {l : List HandlerEntry} (hl : r.handlers event = sortByKey order l) :
    (r.registerAll hs).handlers event =
      sortByKey order (l ++ subscriptions event hs r.registered) := by
  induction hs generalizing r l with
  | nil => simpa [registerAll, subscriptions] using hl
  | cons handler hs ih =>
    have hnext : (r.register handler).handlers event = sortByKey order
        (l ++ (handler.events.filter fun other => other = event).map fun _ =>
          ⟨handler, r.registered⟩) :=
      foldl_subscribe_handlers _ _ _ hl
    have hregistered : (r.register handler).registered = r.registered + 1 :=
      foldl_subscribe_registered ..
    have h := ih _ hnext
    rw [registerAll] at h ⊢
    rw [foldl_cons, h, hregistered, subscriptions, append_assoc]

theorem registerAll_params (r : HookRegistry) (hs : List HookHandler) :
    (r.registerAll hs).circuitBreakerThreshold = r.circuitBreakerThreshold ∧
      (r.registerAll hs).circuitBreakerCooldown = r.circuitBreakerCooldown ∧
      (r.registerAll hs).dryRun = r.dryRun := by
  have hsubscribe : ∀ (entry : HandlerEntry) (events : List HookEvent) (r : HookRegistry),
      (events.foldl (fun r' event => r'.subscribe entry event) r).circuitBreakerThreshold =
          r.circuitBreakerThreshold ∧
        (events.foldl (fun r' event => r'.subscribe entry event) r).circuitBreakerCooldown =
          r.circuitBreakerCooldown ∧
        (events.foldl (fun r' event => r'.subscribe entry event) r).dryRun = r.dryRun := by
    intro entry events
    induction events with
    | nil => exact fun r => ⟨rfl, rfl, rfl⟩
    | cons event events ih => exact fun r => ih (r.subscribe entry event)
  induction hs generalizing r with
  | nil => exact ⟨rfl, rfl, rfl⟩
  | cons handler hs ih =>
    obtain ⟨h₁, h₂, h₃⟩ := ih (r.register handler)
    obtain ⟨k₁, k₂, k₃⟩ := hsubscribe ⟨handler, r.registered⟩ handler.events
      { r with registered := r.registered + 1 }
    exact ⟨h₁.trans k₁, h₂.trans k₂, h₃.trans k₃⟩

end HookRegistry

/-! ## What a sequential call returns -/

def blockOf : HookOutcome ν → Option String
  | .ok (.block reason) => some reason
  | _ => none

def modifyOf : HookOutcome ν → Option ν
  | .ok (.modifyPayload value) => some value
  | _ => none

/-- The first `Block`, else the last `ModifyPayload`, else `Continue`; a dry run continues. -/
def verdict (dryRun : Bool) (outcomes : List (HookOutcome ν)) : HookAction ν :=
  if dryRun then .continue
  else
    match outcomes.findSome? blockOf with
    | some reason => .block reason
    | none =>
      match outcomes.reverse.findSome? modifyOf with
      | some value => .modifyPayload value
      | none => .continue

namespace HookCall

/-- The answers of the handlers that were run. -/
def outcomes (c : HookCall ν) : List (HookOutcome ν) := c.visits.filterMap Prod.snd

/-- The call stopped at a `Block`. -/
def Blocked (c : HookCall ν) : Prop :=
  ∃ front entry reason, c.visits = front ++ [(entry, some (.ok (.block reason)))]

end HookCall

/-- How far a call that is not parallel has come. -/
structure CallSound (r : HookRegistry) (c : HookCall ν) : Prop where
  covers : c.visits.map Prod.fst ++ c.running ++ c.remaining = r.handlers c.event
  single : c.running.length ≤ 1
  modified : c.lastModify = if r.dryRun then none else c.outcomes.reverse.findSome? modifyOf
  unblocked : c.returned = none → r.dryRun = false → c.outcomes.findSome? blockOf = none
  returns : ∀ action, c.returned = some action → c.running = [] ∧
    action = verdict r.dryRun c.outcomes ∧
    (c.remaining = [] ∨ r.dryRun = false ∧ c.Blocked)
  /-- Nothing comes after the first `Block`. -/
  last : r.dryRun = false → ∀ front entry reason back,
    c.visits = front ++ (entry, some (.ok (.block reason))) :: back → back = []

namespace CallSound

variable {c : HookCall ν} {entry : HandlerEntry} {rest : List HandlerEntry}

theorem start (r : HookRegistry) (event : HookEvent) (sync : Bool) :
    CallSound r (.start r event sync : HookCall ν) where
  covers := rfl
  single := Nat.zero_le 1
  modified := by cases r.dryRun <;> rfl
  unblocked _ _ := rfl
  returns action h := by cases h
  last _ front entry reason back h := by
    cases front with
    | nil | cons => cases h

/-- A visit that is no `Block` comes last, or before it no handler blocked. -/
theorem last_snoc {visits : List (HandlerEntry × Option (HookOutcome ν))}
    {visit : HandlerEntry × Option (HookOutcome ν)}
    (hnone : (visits.filterMap Prod.snd).findSome? blockOf = none) {front entry reason back}
    (h : visits ++ [visit] = front ++ (entry, some (.ok (.block reason))) :: back) : back = [] := by
  rcases back.eq_nil_or_concat' with rfl | ⟨back, last, rfl⟩
  · rfl
  · rw [← cons_append, ← append_assoc] at h
    obtain ⟨rfl, -⟩ := append_inj' h rfl
    rw [List.findSome?_eq_none_iff] at hnone
    have hblock := hnone (.ok (.block reason)) (by simp)
    cases hblock

theorem visit (hs : CallSound r c) (hopen : c.returned = none) (hrunning : c.running = [])
    (hnext : c.remaining = entry :: rest) (skipped : Bool) : CallSound r (c.visit skipped) := by
  have hcovers := hs.covers
  rw [hnext, hrunning, append_nil] at hcovers
  unfold HookCall.visit
  rw [hnext]
  cases skipped with
  | true =>
    change CallSound r { c with remaining := rest, visits := c.visits ++ [(entry, none)] }
    have hout : (c.visits ++ [(entry, none)]).filterMap Prod.snd = c.outcomes := by
      simp [HookCall.outcomes]
    refine ⟨?_, ?_, ?_, ?_, ?_, ?_⟩
    · simpa [hrunning] using hcovers
    · simp [hrunning]
    · simpa only [HookCall.outcomes, hout] using hs.modified
    · intro _ hdry
      simpa only [HookCall.outcomes, hout] using hs.unblocked hopen hdry
    · intro action h
      simp [hopen] at h
    · intro hdry front entry' reason back h
      exact last_snoc (hs.unblocked hopen hdry) h
  | false =>
    change CallSound r { c with remaining := rest, running := c.running ++ [entry] }
    refine ⟨?_, ?_, hs.modified, hs.unblocked, ?_, hs.last⟩
    · simpa [hrunning] using hcovers
    · simp [hrunning]
    · intro action h
      simp [hopen] at h

theorem outcomes_snoc (visits : List (HandlerEntry × Option (HookOutcome ν))) (entry : HandlerEntry)
    (outcome : HookOutcome ν) : (visits ++ [(entry, some outcome)]).filterMap Prod.snd =
      visits.filterMap Prod.snd ++ [outcome] := by
  simp

theorem settle_open (hs : CallSound r c) (hopen : c.returned = none) (hrunning : c.running = [entry])
    {outcome : HookOutcome ν} (hblock : r.dryRun = false → blockOf outcome = none)
    {lastModify : Option ν} (hmodify : lastModify =
      if r.dryRun then none else (modifyOf outcome).or c.lastModify) :
    CallSound r { c with
      running := []
      visits := c.visits ++ [(entry, some outcome)]
      lastModify := lastModify } where
  covers := by
    have hcovers := hs.covers
    rw [hrunning] at hcovers
    simpa using hcovers
  single := Nat.zero_le 1
  modified := by
    simp only [outcomes, outcomes_snoc, reverse_append, reverse_singleton,
      singleton_append, List.findSome?_cons]
    rw [hmodify, hs.modified]
    cases r.dryRun with
    | true => rfl
    | false =>
      cases modifyOf outcome with
      | none | some value => rfl
  unblocked _ hdry := by
    simp only [outcomes, outcomes_snoc, List.findSome?_append]
    rw [show (c.visits.filterMap Prod.snd).findSome? blockOf = none from hs.unblocked hopen hdry]
    simp [hblock hdry]
  returns action h := by
    simp [hopen] at h
  last hdry front entry' reason back h := last_snoc (hs.unblocked hopen hdry) h

theorem settle_block (hs : CallSound r c) (hopen : c.returned = none)
    (hrunning : c.running = [entry]) (hdry : r.dryRun = false) (reason : String) :
    CallSound r { c with
      running := []
      visits := c.visits ++ [(entry, some (.ok (.block reason)))]
      returned := some (.block reason) } where
  covers := by
    have hcovers := hs.covers
    rw [hrunning] at hcovers
    simpa using hcovers
  single := Nat.zero_le 1
  modified := by
    simp only [outcomes, outcomes_snoc, reverse_append, reverse_singleton,
      singleton_append, List.findSome?_cons]
    exact hs.modified
  unblocked h := by cases h
  returns action h := by
    cases h
    refine ⟨rfl, ?_, .inr ⟨hdry, c.visits, entry, reason, rfl⟩⟩
    simp only [verdict, hdry, outcomes, outcomes_snoc, List.findSome?_append]
    rw [show (c.visits.filterMap Prod.snd).findSome? blockOf = none from hs.unblocked hopen hdry]
    rfl
  last hdry front entry' reason' back h := last_snoc (hs.unblocked hopen hdry) h

theorem settle (hs : CallSound r c) (hopen : c.returned = none) (hsequential : c.parallel = false)
    (hrunning : entry ∈ c.running) (outcome : HookOutcome ν) :
    CallSound r (c.settle r.dryRun entry outcome) := by
  have hone : c.running = [entry] := by
    have hsingle := hs.single
    rcases hlist : c.running with _ | ⟨first, _ | ⟨second, others⟩⟩
    · rw [hlist] at hrunning
      cases hrunning
    · rw [hlist, mem_singleton] at hrunning
      rw [hrunning]
    · rw [hlist] at hsingle
      simp at hsingle
  have hmodified := hs.modified
  unfold HookCall.settle
  simp only [hsequential, Bool.false_eq_true, if_false, hone, erase_cons_head]
  cases outcome with
  | error error =>
    refine hs.settle_open hopen hone (fun _ => rfl) ?_
    cases hdry : r.dryRun <;> simp [hdry, modifyOf] at hmodified ⊢
    exact hmodified
  | ok action =>
    cases action with
    | «continue» =>
      refine hs.settle_open hopen hone (fun _ => rfl) ?_
      cases hdry : r.dryRun <;> simp [hdry, modifyOf] at hmodified ⊢
      exact hmodified
    | modifyPayload value =>
      cases hdry : r.dryRun with
      | true =>
        refine hs.settle_open hopen hone (fun _ => rfl) ?_
        simpa [hdry] using hmodified
      | false =>
        refine hs.settle_open hopen hone (fun _ => rfl) ?_
        simp [hdry, modifyOf]
    | block reason =>
      cases hdry : r.dryRun with
      | true =>
        refine hs.settle_open hopen hone (fun h => by rw [hdry] at h; cases h) ?_
        simpa [hdry] using hmodified
      | false => exact hs.settle_block hopen hone hdry reason

theorem finish (hs : CallSound r c) (hopen : c.returned = none) (hsequential : c.parallel = false)
    (hremaining : c.remaining = []) (hrunning : c.running = []) : CallSound r c.finish where
  __ := hs
  unblocked h := by cases h
  returns action h := by
    simp only [HookCall.finish, hsequential, Bool.false_eq_true, if_false, Option.some.injEq] at h
    subst h
    refine ⟨hrunning, ?_, .inl hremaining⟩
    rw [hs.modified]
    unfold verdict
    cases hdry : r.dryRun with
    | true => rfl
    | false =>
      have hnone : c.finish.outcomes.findSome? blockOf = none := hs.unblocked hopen hdry
      simp only [hnone, Bool.false_eq_true, if_false]
      rfl

end CallSound

namespace HookCall

variable (c : HookCall ν)

theorem visit_kind (skipped : Bool) :
    (c.visit skipped).event = c.event ∧ (c.visit skipped).sync = c.sync := by
  unfold visit
  cases c.remaining with
  | nil => exact ⟨rfl, rfl⟩
  | cons entry rest => cases skipped <;> exact ⟨rfl, rfl⟩

theorem visit_parallel (skipped : Bool) : (c.visit skipped).parallel = c.parallel := by
  rw [parallel, (c.visit_kind skipped).1, (c.visit_kind skipped).2, parallel]

theorem visit_returned (skipped : Bool) : (c.visit skipped).returned = c.returned := by
  unfold visit
  cases c.remaining with
  | nil => rfl
  | cons entry rest => cases skipped <;> rfl

theorem settle_kind (dryRun : Bool) (entry : HandlerEntry) (outcome : HookOutcome ν) :
    (c.settle dryRun entry outcome).event = c.event ∧
      (c.settle dryRun entry outcome).sync = c.sync := by
  unfold settle
  by_cases hparallel : c.parallel = true
  · rw [if_pos hparallel]
    exact ⟨rfl, rfl⟩
  · rw [if_neg hparallel]
    cases outcome with
    | error => exact ⟨rfl, rfl⟩
    | ok action => cases action <;> cases dryRun <;> exact ⟨rfl, rfl⟩

theorem settle_parallel (dryRun : Bool) (entry : HandlerEntry) (outcome : HookOutcome ν) :
    (c.settle dryRun entry outcome).parallel = c.parallel := by
  rw [parallel, (c.settle_kind dryRun entry outcome).1, (c.settle_kind dryRun entry outcome).2,
    parallel]

end HookCall

/-- Calls in parallel continue, and the others are sound. -/
def CallsSound (r : HookRegistry) (w : HookWorld ν) : Prop :=
  ∀ d c, w.calls d = some c → (c.parallel = false → CallSound r c) ∧
    (c.parallel = true → ∀ action, c.returned = some action → action = .continue)

variable {d : ℕ}

theorem CallsSound.update (h : CallsSound r w) {c : HookCall ν}
    (hsequential : c.parallel = false → CallSound r c)
    (hparallel : c.parallel = true → ∀ action, c.returned = some action → action = .continue)
    {stats : ℕ → HookStats} {clock : ℕ} :
    CallsSound r { stats := stats, calls := Function.update w.calls d (some c), clock := clock } := by
  intro d' c' hcall
  by_cases hd : d' = d
  · subst hd
    simp only [update_self, Option.some.injEq] at hcall
    subst hcall
    exact ⟨hsequential, hparallel⟩
  · simp only [update_of_ne hd] at hcall
    exact h d' c' hcall

theorem CallsSound.step (h : CallsSound r w) (hstep : HookStep r w e w') : CallsSound r w' := by
  cases hstep with
  | start d event sync hfree =>
    exact h.update (fun _ => .start r event sync) fun _ action haction => by cases haction
  | check d c entry rest now hcall hopen hready hnext hnow =>
    obtain ⟨hsequential, -⟩ := h d c hcall
    refine h.update ?_ ?_
    · intro hc
      rw [visit_parallel] at hc
      refine (hsequential hc).visit hopen (hready.resolve_left ?_) hnext _
      simp [hc]
    · intro _ action haction
      rw [visit_returned, hopen] at haction
      cases haction
  | outcome d c entry outcome hcall hopen hready hrunning =>
    obtain ⟨hsequential, -⟩ := h d c hcall
    refine h.update ?_ ?_
    · intro hc
      rw [settle_parallel] at hc
      exact (hsequential hc).settle hopen hc hrunning outcome
    · intro hc action haction
      rw [settle_parallel] at hc
      simp [settle, hc, hopen] at haction
  | finish d c hcall hopen hremaining hrunning =>
    obtain ⟨hsequential, -⟩ := h d c hcall
    refine h.update ?_ ?_
    · intro hc
      exact (hsequential hc).finish hopen hc hremaining hrunning
    · intro hc action haction
      have hparallel : c.parallel = true := hc
      simp only [finish, hparallel, if_true, Option.some.injEq] at haction
      exact haction.symm

theorem CallsSound.of_run (hrun : Run (HookStep r) (.new ν) trace w) : CallsSound r w := by
  refine hrun.invariant (fun _ _ _ h hstep => h.step hstep) ?_
  intro d c hcall
  cases hcall

/-! ## The breaker of a handler along a run -/

/-- What the handlers with these statistics have answered. -/
def outcomesOf (i : ℕ) (trace : List (HookMove ν)) : List (HookOutcome ν) :=
  trace.filterMap fun
    | .outcome _ entry outcome => if entry.stats = i then some outcome else none
    | _ => none

theorem outcomesOf_append (i : ℕ) (pre post : List (HookMove ν)) :
    outcomesOf i (pre ++ post) = outcomesOf i pre ++ outcomesOf i post :=
  filterMap_append ..

/-- The last outcomes, so many, are errors. -/
def EndsInErrors (n : ℕ) (outcomes : List (HookOutcome ν)) : Prop :=
  ∃ front back, outcomes = front ++ back ∧ back.length = n ∧ ∀ o ∈ back, ∃ error, o = .error error

theorem EndsInErrors.mono {n k : ℕ} {outcomes : List (HookOutcome ν)} (h : EndsInErrors n outcomes)
    (hk : k ≤ n) : EndsInErrors k outcomes := by
  obtain ⟨front, back, rfl, hlength, herrors⟩ := h
  refine ⟨front ++ back.take (n - k), back.drop (n - k), ?_, ?_, ?_⟩
  · rw [append_assoc, take_append_drop]
  · rw [length_drop]
    omega
  · exact fun o ho => herrors o (mem_of_mem_drop ho)

theorem EndsInErrors.snoc {n : ℕ} {outcomes : List (HookOutcome ν)} (h : EndsInErrors n outcomes)
    (error : String) : EndsInErrors (n + 1) (outcomes ++ [.error error]) := by
  obtain ⟨front, back, rfl, rfl, herrors⟩ := h
  refine ⟨front, back ++ [.error error], by simp, by simp, ?_⟩
  intro o ho
  rcases mem_append.mp ho with ho | ho
  · exact herrors o ho
  · exact ⟨error, mem_singleton.mp ho⟩

theorem endsInErrors_zero (outcomes : List (HookOutcome ν)) : EndsInErrors 0 outcomes :=
  ⟨outcomes, [], by simp, rfl, by simp⟩

/-- A check at some time found that the last outcomes were errors, as many as the threshold. -/
def TrippedAt (r : HookRegistry) (trace : List (HookMove ν)) (i t : ℕ) : Prop :=
  ∃ pre d entry post, trace = pre ++ .check d entry t true :: post ∧ entry.stats = i ∧
    EndsInErrors r.circuitBreakerThreshold (outcomesOf i pre)

theorem TrippedAt.snoc {i t : ℕ} (h : TrippedAt r trace i t) (e : HookMove ν) :
    TrippedAt r (trace ++ [e]) i t := by
  obtain ⟨pre, d, entry, post, rfl, hentry, herrors⟩ := h
  exact ⟨pre, d, entry, post ++ [e], by simp, hentry, herrors⟩

structure BreakerSound (r : HookRegistry) (trace : List (HookMove ν)) (clock i : ℕ)
    (stats : HookStats) : Prop where
  failures : EndsInErrors stats.consecutiveFailures (outcomesOf i trace)
  disabled : stats.disabled = true → ∃ t, stats.disabledAt = some t ∧ t ≤ clock ∧
    TrippedAt r trace i t

variable {entry : HandlerEntry}

namespace BreakerSound

variable {clock now i : ℕ} {stats : HookStats}

theorem other (h : BreakerSound r trace clock i stats) (he : outcomesOf i [e] = [])
    (hnow : clock ≤ now) : BreakerSound r (trace ++ [e]) now i stats where
  failures := by
    rw [outcomesOf_append, he, append_nil]
    exact h.failures
  disabled hdisabled := by
    obtain ⟨t, ht, hle, htripped⟩ := h.disabled hdisabled
    exact ⟨t, ht, hle.trans hnow, htripped.snoc e⟩

theorem record (h : BreakerSound r trace clock i stats) (hentry : entry.stats = i)
    (outcome : HookOutcome ν) :
    BreakerSound r (trace ++ [.outcome d entry outcome]) clock i (stats.record outcome) where
  failures := by
    rw [outcomesOf_append]
    have hone : outcomesOf i [HookMove.outcome d entry outcome] = [outcome] := by
      simp [outcomesOf, hentry]
    rw [hone]
    cases outcome with
    | ok action => exact endsInErrors_zero _
    | error error => exact h.failures.snoc error
  disabled hdisabled := by
    have hstats : stats.disabled = true ∧ (stats.record outcome).disabledAt = stats.disabledAt := by
      cases outcome <;> exact ⟨hdisabled, rfl⟩
    obtain ⟨t, ht, hle, htripped⟩ := h.disabled hstats.1
    exact ⟨t, hstats.2.trans ht, hle, htripped.snoc _⟩

theorem check (h : BreakerSound r trace clock i stats) (hentry : entry.stats = i)
    (hnow : clock ≤ now) :
    BreakerSound r (trace ++ [.check d entry now (r.checkCircuitBreaker stats now).2]) now i
        (r.checkCircuitBreaker stats now).1 ∧
      ((r.checkCircuitBreaker stats now).2 = true →
        (r.checkCircuitBreaker stats now).1.disabled = true ∧
        ∃ t, (r.checkCircuitBreaker stats now).1.disabledAt = some t ∧ t ≤ now ∧
          (0 < r.circuitBreakerCooldown → now < t + r.circuitBreakerCooldown)) := by
  have hout : outcomesOf i
      [HookMove.check d entry now (r.checkCircuitBreaker stats now).2] = ([] : List (HookOutcome ν)) :=
    rfl
  unfold HookRegistry.checkCircuitBreaker HookStats.checkCircuitBreaker at hout ⊢
  by_cases hdisabled : stats.disabled = true
  · obtain ⟨t, ht, hle, htripped⟩ := h.disabled hdisabled
    by_cases hover : r.circuitBreakerCooldown ≤ now - t
    · simp only [hdisabled, ht, Option.any_some, hover, decide_true, if_true] at hout ⊢
      refine ⟨⟨endsInErrors_zero _, fun hfalse => by cases hfalse⟩, fun hfalse => by cases hfalse⟩
    · simp only [hdisabled, ht, Option.any_some, hover, decide_false, Bool.false_eq_true, if_false,
        if_true] at hout ⊢
      refine ⟨h.other hout hnow, fun _ => ⟨trivial, t, rfl, hle.trans hnow, fun _ => ?_⟩⟩
      omega
  · simp only [hdisabled, Bool.false_eq_true, if_false] at hout ⊢
    by_cases htrips : r.circuitBreakerThreshold ≤ stats.consecutiveFailures
    · simp only [htrips, if_true] at hout ⊢
      refine ⟨⟨?_, fun _ => ⟨now, rfl, le_rfl, ?_⟩⟩, fun _ => ⟨trivial, now, rfl, le_rfl, ?_⟩⟩
      · rw [outcomesOf_append, hout, append_nil]
        exact h.failures
      · exact ⟨trace, d, entry, [], rfl, hentry, h.failures.mono htrips⟩
      · intro hcooldown
        omega
    · simp only [htrips, if_false] at hout ⊢
      refine ⟨h.other hout hnow, fun hfalse => by cases hfalse⟩

end BreakerSound

def BreakersSound (r : HookRegistry) (trace : List (HookMove ν)) (w : HookWorld ν) : Prop :=
  ∀ i, BreakerSound r trace w.clock i (w.stats i)

theorem BreakersSound.step (h : BreakersSound r trace w) (hstep : HookStep r w e w') :
    BreakersSound r (trace ++ [e]) w' := by
  intro i
  cases hstep with
  | start | finish => exact (h i).other rfl le_rfl
  | check d c entry rest now hcall hopen hready hnext hnow =>
    by_cases hi : i = entry.stats
    · subst hi
      simp only [update_self]
      exact ((h entry.stats).check rfl hnow).1
    · simp only [update_of_ne hi]
      exact (h i).other rfl hnow
  | outcome d c entry outcome hcall hopen hready hrunning =>
    by_cases hi : i = entry.stats
    · subst hi
      simp only [update_self]
      exact (h entry.stats).record rfl outcome
    · simp only [update_of_ne hi]
      refine (h i).other ?_ le_rfl
      simp [outcomesOf, Ne.symm hi]

theorem BreakersSound.of_run (hrun : Run (HookStep r) (.new ν) trace w) :
    BreakersSound r trace w := by
  refine hrun.history (P := BreakersSound r) ?_ fun _ _ _ _ h hstep => h.step hstep
  intro i
  exact ⟨endsInErrors_zero _, fun hdisabled => by cases hdisabled⟩

variable {now : ℕ}

theorem check_inv {skipped : Bool} (hstep : HookStep r w (.check d entry now skipped) w') :
    w.clock ≤ now ∧ skipped = (r.checkCircuitBreaker (w.stats entry.stats) now).2 ∧
      w'.stats entry.stats = (r.checkCircuitBreaker (w.stats entry.stats) now).1 := by
  cases hstep with
  | check d c entry rest now hcall hopen hready hnext hnow =>
    exact ⟨hnow, rfl, update_self ..⟩

/-- Why a handler is skipped: it was disabled by a check that found errors only, as many as the
threshold, and the cooldown since then is not over, if there is a cooldown. -/
theorem skipped_only_if (hrun : Run (HookStep r) (.new ν) trace w)
    (hstep : HookStep r w (.check d entry now true) w') :
    ∃ t, (w'.stats entry.stats).disabled = true ∧ (w'.stats entry.stats).disabledAt = some t ∧
      t ≤ now ∧ TrippedAt r (trace ++ [.check d entry now true]) entry.stats t ∧
      (0 < r.circuitBreakerCooldown → now < t + r.circuitBreakerCooldown) := by
  have hsound := BreakersSound.of_run hrun
  have hafter := hsound.step hstep entry.stats
  obtain ⟨hnow, hskipped, hstats⟩ := check_inv hstep
  obtain ⟨hdisabled, t, ht, hle, htime⟩ :=
    ((hsound entry.stats).check (d := d) rfl hnow).2 hskipped.symm
  rw [← hstats] at hdisabled ht
  obtain ⟨t', ht', -, htripped⟩ := hafter.disabled hdisabled
  cases ht.symm.trans ht'
  exact ⟨t, hdisabled, ht, hle, htripped, htime⟩

theorem not_skipped (hthreshold : 1 ≤ r.circuitBreakerThreshold)
    (hrun : Run (HookStep r) (.new ν) trace w)
    (hhealthy : ∀ o ∈ outcomesOf entry.stats trace, ∃ action, o = .ok action) :
    ¬ HookStep r w (.check d entry now true) w' := by
  intro hstep
  obtain ⟨t, -, -, -, ⟨pre, d', entry', post, htrace, hentry, front, back, hout, hlength, herrors⟩,
    -⟩ := skipped_only_if hrun hstep
  obtain ⟨o, back, rfl⟩ := exists_cons_of_ne_nil
    (show back ≠ [] by rintro rfl; simp at hlength; omega)
  obtain ⟨error, rfl⟩ := herrors o (mem_cons_self ..)
  have herror : (.error error : HookOutcome ν) ∈ outcomesOf entry.stats trace := by
    have hall : outcomesOf entry.stats (trace ++ [.check d entry now true]) =
        outcomesOf entry.stats trace := by
      rw [outcomesOf_append]
      exact append_nil _
    rw [← hall, htrace, outcomesOf_append, hout]
    simp
  obtain ⟨action, haction⟩ := hhealthy _ herror
  cases haction

/-! ## Synchronous calls -/

/-- The same move, with calls that begin as chosen. -/
def HookMove.resync (f : ℕ → Bool) : HookMove ν → HookMove ν
  | .start d event _ => .start d event (f d)
  | .check d entry now skipped => .check d entry now skipped
  | .outcome d entry result => .outcome d entry result
  | .finish d => .finish d

def HookCall.resync (sync : Bool) (c : HookCall ν) : HookCall ν := { c with sync := sync }

/-- The same state, with calls that have begun as chosen. -/
def HookWorld.resync (f : ℕ → Bool) (w : HookWorld ν) : HookWorld ν :=
  { w with calls := fun d => (w.calls d).map (HookCall.resync (f d)) }

/-- The calls that are changed are for events that are not read-only. -/
def Resyncable (f : ℕ → Bool) (trace : List (HookMove ν)) : Prop :=
  ∀ d event sync, .start d event sync ∈ trace → event.isReadOnly = false ∨ f d = sync

theorem HookWorld.resync_update (f : ℕ → Bool) (w : HookWorld ν) (d : ℕ) (c : HookCall ν)
    (stats : ℕ → HookStats) (clock : ℕ) :
    resync f
      { stats := stats, calls := Function.update w.calls d (some c), clock := clock } =
      { stats := stats
        calls := Function.update (w.resync f).calls d (some (c.resync (f d)))
        clock := clock } := by
  unfold resync
  congr 1
  funext d'
  by_cases hd : d' = d
  · subst hd
    simp
  · simp [update_of_ne hd]

theorem step_resync {f : ℕ → Bool} (hstep : HookStep r w e w')
    (hcalls : ∀ d c, w.calls d = some c → (c.resync (f d)).parallel = c.parallel) :
    HookStep r (w.resync f) (e.resync f) (w'.resync f) := by
  cases hstep with
  | start d event sync hfree =>
    rw [HookWorld.resync_update]
    refine HookStep.start (w.resync f) d event (f d) ?_
    simp [HookWorld.resync, hfree]
  | check d c entry rest now hcall hopen hready hnext hnow =>
    rw [HookWorld.resync_update]
    have hvisit : ∀ skipped, (c.visit skipped).resync (f d) = (c.resync (f d)).visit skipped := by
      intro skipped
      unfold HookCall.visit HookCall.resync
      rw [hnext]
      cases skipped <;> rfl
    rw [hvisit]
    refine HookStep.check (w.resync f) d (c.resync (f d)) entry rest now ?_ hopen ?_ hnext hnow
    · simp [HookWorld.resync, hcall]
    · rw [hcalls d c hcall]
      exact hready
  | outcome d c entry outcome hcall hopen hready hrunning =>
    rw [HookWorld.resync_update]
    have hparallel := hcalls d c hcall
    have hsettle : (c.settle r.dryRun entry outcome).resync (f d) =
        (c.resync (f d)).settle r.dryRun entry outcome := by
      unfold HookCall.settle
      rw [hparallel]
      by_cases hc : c.parallel = true
      · rw [if_pos hc, if_pos hc]
        rfl
      · rw [if_neg hc, if_neg hc]
        cases outcome with
        | error => rfl
        | ok action => cases action <;> cases r.dryRun <;> rfl
    rw [hsettle]
    refine HookStep.outcome (w.resync f) d (c.resync (f d)) entry outcome ?_ hopen ?_ hrunning
    · simp [HookWorld.resync, hcall]
    · rw [hparallel]
      exact hready
  | finish d c hcall hopen hremaining hrunning =>
    rw [HookWorld.resync_update]
    have hfinish : c.finish.resync (f d) = (c.resync (f d)).finish := by
      unfold HookCall.finish
      rw [hcalls d c hcall]
      rfl
    rw [hfinish]
    refine HookStep.finish (w.resync f) d (c.resync (f d)) ?_ hopen hremaining hrunning
    simp [HookWorld.resync, hcall]

theorem started_of_run (hrun : Run (HookStep r) (.new ν) trace w) :
    ∀ d c, w.calls d = some c → .start d c.event c.sync ∈ trace := by
  refine hrun.history (P := fun trace (w : HookWorld ν) =>
    ∀ d c, w.calls d = some c → .start d c.event c.sync ∈ trace) ?_ ?_
  · intro d c hcall
    cases hcall
  · intro pre u e v hu hstep
    have hupdate : ∀ d c, .start d c.event c.sync ∈ pre ++ [e] → ∀ d' c',
        Function.update u.calls d (some c) d' = some c' →
        .start d' c'.event c'.sync ∈ pre ++ [e] := by
      intro d c hc d' c' hcall
      by_cases hd : d' = d
      · subst hd
        rw [update_self] at hcall
        cases hcall
        exact hc
      · rw [update_of_ne hd] at hcall
        exact mem_append_left _ (hu d' c' hcall)
    cases hstep with
    | start d event sync hfree =>
      exact hupdate d _ (mem_append_right _ (mem_singleton_self _))
    | check d c entry rest now hcall hopen hready hnext hnow =>
      refine hupdate d _ ?_
      rw [(c.visit_kind _).1, (c.visit_kind _).2]
      exact mem_append_left _ (hu d c hcall)
    | outcome d c entry outcome hcall hopen hready hrunning =>
      refine hupdate d _ ?_
      rw [(c.settle_kind _ _ _).1, (c.settle_kind _ _ _).2]
      exact mem_append_left _ (hu d c hcall)
    | finish d c hcall hopen hremaining hrunning =>
      exact hupdate d _ (mem_append_left _ (hu d c hcall))

/-- With the same answers at the same times, calls for events that are not read-only come to the
same whether they are synchronous or not. -/
theorem run_resync {f : ℕ → Bool} (hrun : Run (HookStep r) (.new ν) trace w)
    (hf : Resyncable f trace) :
    Run (HookStep r) (.new ν) (trace.map (HookMove.resync f)) (w.resync f) := by
  refine (hrun.history (P := fun trace (w : HookWorld ν) => Run (HookStep r) (.new ν) trace w ∧
    (Resyncable f trace →
      Run (HookStep r) (.new ν) (trace.map (HookMove.resync f)) (w.resync f))) ?_ ?_).2 hf
  · exact ⟨.nil _, fun _ => .nil _⟩
  · rintro pre u e v ⟨hpre, ih⟩ hstep
    refine ⟨Run.append hpre (.cons hstep (.nil v)), fun hf => ?_⟩
    have hfpre : Resyncable f pre :=
      fun d event sync hmem => hf d event sync (mem_append_left _ hmem)
    have hcalls : ∀ d c, u.calls d = some c → (c.resync (f d)).parallel = c.parallel := by
      intro d c hcall
      rcases hfpre d _ _ (started_of_run hpre d c hcall) with hevent | hsync
      · simp [HookCall.parallel, HookCall.resync, hevent]
      · simp [HookCall.parallel, HookCall.resync, hsync]
    rw [map_append]
    exact Run.append (ih hfpre) (.cons (step_resync hstep hcalls) (.nil _))

/-! ## The law -/

/-- What holds at the end of every run of calls. -/
structure DispatchLaw (r : HookRegistry) (trace : List (HookMove ν)) (w : HookWorld ν) : Prop where
  /-- A call that is not parallel goes through its entries up to the first `Block`, and returns
  the verdict on the answers it got. -/
  folds : ∀ d c action, w.calls d = some c → c.parallel = false → c.returned = some action →
    action = verdict r.dryRun c.outcomes ∧
    c.visits.map Prod.fst ++ c.remaining = r.handlers c.event ∧
    (c.remaining = [] ∨ r.dryRun = false ∧ c.Blocked) ∧
    (r.dryRun = false → ∀ front entry reason back,
      c.visits = front ++ (entry, some (.ok (.block reason))) :: back → back = [])
  skips : ∀ pre d entry now post u v, trace = pre ++ .check d entry now true :: post →
    Run (HookStep r) (.new ν) pre u → HookStep r u (.check d entry now true) v →
    ∃ t, (v.stats entry.stats).disabled = true ∧ (v.stats entry.stats).disabledAt = some t ∧
      t ≤ now ∧ TrippedAt r (pre ++ [.check d entry now true]) entry.stats t ∧
      (0 < r.circuitBreakerCooldown → now < t + r.circuitBreakerCooldown)
  healthy : ∀ pre d entry now post, trace = pre ++ .check d entry now true :: post →
    ∃ error, .error error ∈ outcomesOf entry.stats pre
  readOnly : ∀ d c action, w.calls d = some c → c.event.isReadOnly = true → c.sync = false →
    c.returned = some action → action = .continue
  same : ∀ f, Resyncable f trace →
    Run (HookStep r) (.new ν) (trace.map (HookMove.resync f)) (w.resync f)

theorem dispatchLaw_of_run (hthreshold : 1 ≤ r.circuitBreakerThreshold)
    (hrun : Run (HookStep r) (.new ν) trace w) : DispatchLaw r trace w where
  folds d c action hcall hsequential hreturned := by
    have hs := (CallsSound.of_run hrun d c hcall).1 hsequential
    obtain ⟨hrunning, haction, hend⟩ := hs.returns action hreturned
    have hcovers := hs.covers
    rw [hrunning, append_nil] at hcovers
    exact ⟨haction, hcovers, hend, hs.last⟩
  skips pre d entry now post u v htrace hpre hstep := skipped_only_if hpre hstep
  healthy := by
    rintro pre d entry now post rfl
    obtain ⟨u, hpre, hrest⟩ := Run.append_iff.mp hrun
    obtain ⟨v, hstep, -⟩ := Run.cons_iff.mp hrest
    by_contra hno
    refine not_skipped hthreshold hpre (fun o ho => ?_) hstep
    cases o with
    | ok action => exact ⟨action, rfl⟩
    | error error => exact absurd ⟨error, ho⟩ hno
  readOnly d c action hcall hevent hsync hreturned :=
    (CallsSound.of_run hrun d c hcall).2 (by simp [parallel, hevent, hsync]) action
      hreturned
  same f hf := run_resync hrun hf

/-- A registry with these parameters, in which these handlers were registered. -/
def HookRegistry.build (threshold cooldown : ℕ) (dryRun : Bool) (hs : List HookHandler) :
    HookRegistry :=
  ((HookRegistry.new.withCircuitBreaker threshold cooldown).withDryRun dryRun).registerAll hs

/-- The entries of an event come by descending priority, and in the order of their registration
among equals. -/
theorem HookRegistry.handlers_build (threshold cooldown : ℕ) (dryRun : Bool)
    (hs : List HookHandler) (event : HookEvent) :
    ((build threshold cooldown dryRun hs).handlers event).Pairwise
        (fun a b => b.handler.priority ≤ a.handler.priority) ∧
      ∀ p, ((build threshold cooldown dryRun hs).handlers event).filter
          (fun a => a.handler.priority = p) =
        (subscriptions event hs 0).filter fun a => a.handler.priority = p := by
  have hsorted : (build threshold cooldown dryRun hs).handlers event =
      sortByKey order (subscriptions event hs 0) := by
    have hempty : ((new.withCircuitBreaker threshold cooldown).withDryRun dryRun).handlers event =
        sortByKey order [] := rfl
    exact handlers_registerAll _ hs hempty
  rw [hsorted]
  refine ⟨pairwise_sortByKey order _, fun p => ?_⟩
  refine filter_sortByKey order fun a _ b _ ha hb => ?_
  rw [order, order, of_decide_eq_true ha, of_decide_eq_true hb]

/-- Dispatching folds the answers of the handlers in the order of their priorities, and skips no
handler that did not fail.  With a cooldown, and without synchronous calls for read-only events, a
handler is skipped only during its cooldown, and a call for a read-only event continues. -/
theorem hook_dispatch {threshold cooldown : ℕ} {dryRun : Bool} {hs : List HookHandler}
    (hthreshold : 1 ≤ threshold)
    (hrun : Run (HookStep (.build threshold cooldown dryRun hs)) (.new ν) trace w) :
    (∀ event, ((HookRegistry.build threshold cooldown dryRun hs).handlers event).Pairwise
        (fun a b => b.handler.priority ≤ a.handler.priority) ∧
      ∀ p, ((HookRegistry.build threshold cooldown dryRun hs).handlers event).filter
          (fun a => a.handler.priority = p) =
        (HookRegistry.subscriptions event hs 0).filter fun a => a.handler.priority = p) ∧
    DispatchLaw (.build threshold cooldown dryRun hs) trace w ∧
    (0 < cooldown → (∀ d event, .start d event true ∈ trace → event.isReadOnly = false) →
      (∀ pre d entry now post, trace = pre ++ .check d entry now true :: post →
        ∃ t, t ≤ now ∧ now < t + cooldown ∧
          TrippedAt (.build threshold cooldown dryRun hs) (pre ++ [.check d entry now true])
            entry.stats t) ∧
      ∀ d c action, w.calls d = some c → c.event.isReadOnly = true → c.returned = some action →
        action = .continue) := by
  obtain ⟨hthreshold', hcooldown', -⟩ := HookRegistry.registerAll_params
    ((HookRegistry.new.withCircuitBreaker threshold cooldown).withDryRun dryRun) hs
  have hlaw := dispatchLaw_of_run (hthreshold.trans hthreshold'.ge) hrun
  refine ⟨HookRegistry.handlers_build threshold cooldown dryRun hs, hlaw, ?_⟩
  intro hcooldown hsync
  constructor
  · rintro pre d entry now post rfl
    obtain ⟨u, hpre, hrest⟩ := Run.append_iff.mp hrun
    obtain ⟨v, hstep, -⟩ := Run.cons_iff.mp hrest
    obtain ⟨t, -, -, hle, htripped, htime⟩ := skipped_only_if hpre hstep
    have hsame : (HookRegistry.build threshold cooldown dryRun hs).circuitBreakerCooldown =
        cooldown := hcooldown'
    rw [hsame] at htime
    exact ⟨t, hle, htime hcooldown, htripped⟩
  · intro d c action hcall hevent hreturned
    have hstarted := started_of_run hrun d c hcall
    refine hlaw.readOnly d c action hcall hevent ?_ hreturned
    cases hkind : c.sync with
    | false => rfl
    | true =>
      rw [hkind] at hstarted
      rw [hsync d c.event hstarted] at hevent
      cases hevent

theorem hook_dispatch_blocked : ∃ (trace : List (HookMove String)) (w : HookWorld String),
    (w.calls 0).bind HookCall.returned = some (.block "no") ∧
      DispatchLaw (.build 3 (60 * 10 ^ 9) false [⟨"guard", [.beforeToolCall], 0⟩]) trace w := by
  have hrun : Run (HookStep (.build 3 (60 * 10 ^ 9) false [⟨"guard", [.beforeToolCall], 0⟩]))
      (.new String) _ _ :=
    .cons (.start _ 0 .beforeToolCall false rfl)
      (.cons (.check _ 0 _ ⟨⟨"guard", [.beforeToolCall], 0⟩, 0⟩ [] 0 rfl rfl (.inr rfl) rfl le_rfl)
        (.cons (.outcome _ 0 _ ⟨⟨"guard", [.beforeToolCall], 0⟩, 0⟩ (.ok (.block "no")) rfl rfl
            (fun h => by cases h) (List.mem_singleton_self _))
          (.nil _)))
  refine ⟨_, _, ?_, (hook_dispatch (by decide) hrun).2.1⟩
  rfl

/-- The start of a session is read-only, but a synchronous call for it is blocked, though
the answers are those of a call that continues. -/
theorem sync_blocks_read_only : ∃ (r : HookRegistry) (entry : HandlerEntry)
    (w w' : HookWorld String),
    r = .build 3 (60 * 10 ^ 9) false [⟨"veto", [.sessionStart], 0⟩] ∧
    HookEvent.sessionStart.isReadOnly = true ∧
    Run (HookStep r) (.new String) [.start 0 .sessionStart false, .check 0 entry 0 false,
      .outcome 0 entry (.ok (.block "no")), .finish 0] w ∧
    (w.calls 0).bind HookCall.returned = some .continue ∧
    Run (HookStep r) (.new String) [.start 0 .sessionStart true, .check 0 entry 0 false,
      .outcome 0 entry (.ok (.block "no"))] w' ∧
    (w'.calls 0).bind HookCall.returned = some (.block "no") := by
  have hasync : Run (HookStep (.build 3 (60 * 10 ^ 9) false [⟨"veto", [.sessionStart], 0⟩]))
      (.new String) _ _ :=
    .cons (.start _ 0 .sessionStart false rfl)
      (.cons (.check _ 0 _ ⟨⟨"veto", [.sessionStart], 0⟩, 0⟩ [] 0 rfl rfl (.inr rfl) rfl le_rfl)
        (.cons (.outcome _ 0 _ ⟨⟨"veto", [.sessionStart], 0⟩, 0⟩ (.ok (.block "no")) rfl rfl
            (fun _ => rfl) (List.mem_singleton_self _))
          (.cons (.finish _ 0 _ rfl rfl rfl rfl) (.nil _))))
  have hsync : Run (HookStep (.build 3 (60 * 10 ^ 9) false [⟨"veto", [.sessionStart], 0⟩]))
      (.new String) _ _ :=
    .cons (.start _ 0 .sessionStart true rfl)
      (.cons (.check _ 0 _ ⟨⟨"veto", [.sessionStart], 0⟩, 0⟩ [] 0 rfl rfl (.inr rfl) rfl le_rfl)
        (.cons (.outcome _ 0 _ ⟨⟨"veto", [.sessionStart], 0⟩, 0⟩ (.ok (.block "no")) rfl rfl
            (fun h => by cases h) (List.mem_singleton_self _))
          (.nil _)))
  exact ⟨_, _, _, _, rfl, rfl, hasync, rfl, hsync, rfl⟩

end Chelix.Common
