import Chelix.Agents.RoundOrder

/-!
# The escalation of the loop detector over a whole run

A run is a list of rounds, and the tools that a round strips are given back before the next one.
What the detector does in a round is a function of the rounds since it was reset.
-/

namespace Chelix.Agents

open Chelix.Library List

namespace ToolLoopDetector

/-! ## Rounds -/

/-- An identity is one of the failures of a round that no success suppresses. -/
def Fails (outcomes : List ToolCallFingerprint) (identity : FailureIdentity) : Prop :=
  ∃ failure ∈ unsuppressed outcomes, identity ∈ failure.identities

instance (outcomes : List ToolCallFingerprint) (identity : FailureIdentity) :
    Decidable (Fails outcomes identity) :=
  inferInstanceAs (Decidable (∃ failure ∈ unsuppressed outcomes, identity ∈ failure.identities))

/-- The number of the latest rounds in all of which an identity failed. -/
def streakOf (rounds : List (List ToolCallFingerprint)) (identity : FailureIdentity) : ℕ :=
  (rounds.reverse.takeWhile fun outcomes => decide (Fails outcomes identity)).length

theorem streakOf_concat (rounds : List (List ToolCallFingerprint))
    (outcomes : List ToolCallFingerprint) (identity : FailureIdentity) :
    streakOf (rounds ++ [outcomes]) identity =
      if Fails outcomes identity then streakOf rounds identity + 1 else 0 := by
  unfold streakOf
  rw [reverse_append, reverse_singleton, singleton_append, takeWhile_cons]
  by_cases h : Fails outcomes identity
  · rw [if_pos h, decide_eq_true h, if_pos rfl, length_cons]
  · rw [if_neg h, decide_eq_false h, if_neg Bool.false_ne_true, length_nil]

theorem get_roundObservations_isSome (outcomes : List ToolCallFingerprint)
    (identity : FailureIdentity) :
    (roundObservations (roundFailures outcomes))[identity]?.isSome ↔ Fails outcomes identity := by
  rw [get_roundObservations, List.find?_isSome]
  constructor
  · rintro ⟨failure, hmem, hcarries⟩
    exact ⟨failure, (mem_sortByKey ToolCallFingerprint.sortKey).mp hmem, of_decide_eq_true hcarries⟩
  · rintro ⟨failure, hmem, hcarries⟩
    exact ⟨failure, (mem_sortByKey ToolCallFingerprint.sortKey).mpr hmem, decide_eq_true hcarries⟩

theorem contains_roundObservations (outcomes : List ToolCallFingerprint)
    (identity : FailureIdentity) :
    (roundObservations (roundFailures outcomes)).contains identity = true ↔
      Fails outcomes identity := by
  rw [OrderedMap.contains_eq_isSome, get_roundObservations_isSome]

theorem isEmpty_roundObservations (outcomes : List ToolCallFingerprint) :
    (roundObservations (roundFailures outcomes)).isEmpty = true ↔ unsuppressed outcomes = [] := by
  rw [Std.ExtTreeMap.isEmpty_iff]
  constructor
  · intro h
    rw [eq_nil_iff_forall_not_mem]
    intro failure hmem
    have hfails : Fails outcomes failure.argumentIdentity := by
      refine ⟨failure, hmem, ?_⟩
      unfold ToolCallFingerprint.identities
      split <;> exact mem_cons_self ..
    have hsome := (get_roundObservations_isSome outcomes _).mpr hfails
    rw [h, Std.ExtTreeMap.getElem?_empty] at hsome
    cases hsome
  · intro h
    refine OrderedMap.ext fun identity => ?_
    rw [Std.ExtTreeMap.getElem?_empty, ← Option.not_isSome_iff_eq_none,
      get_roundObservations_isSome]
    rintro ⟨failure, hmem, -⟩
    rw [h] at hmem
    exact not_mem_nil hmem

/-! ## Streaks -/

/-- The length of the streak of an identity. -/
def streakLength (d : ToolLoopDetector) (identity : FailureIdentity) : ℕ :=
  (d.active[identity]?.map fun streak => streak.observations.length).getD 0

theorem length_push (streak : FailureStreak) (observation : ToolCallFingerprint) (window : ℕ) :
    (streak.push observation window).observations.length =
      min window (streak.observations.length + 1) := by
  unfold FailureStreak.push
  simp only [length_drop, length_append, length_singleton]
  omega

/-- A round makes the streaks of its identities longer, up to the window, and ends the others. -/
theorem streakLength_updateActive (d : ToolLoopDetector) (hwindow : 1 ≤ d.window)
    (outcomes : List ToolCallFingerprint) (identity : FailureIdentity) :
    (((updateActive d.active (roundObservations (roundFailures outcomes)) d.window)[identity]?.map
      fun streak => streak.observations.length).getD 0) =
      if Fails outcomes identity then min d.window (d.streakLength identity + 1) else 0 := by
  rw [get_updateActive]
  by_cases hfails : Fails outcomes identity
  · rw [if_pos hfails]
    obtain ⟨observation, hobservation⟩ :=
      Option.isSome_iff_exists.mp ((get_roundObservations_isSome outcomes identity).mpr hfails)
    rw [hobservation]
    unfold streakLength
    cases d.active[identity]? with
    | none =>
      show 1 = min d.window (0 + 1)
      omega
    | some streak => exact length_push streak observation d.window
  · rw [if_neg hfails]
    have hnone : (roundObservations (roundFailures outcomes))[identity]? = none := by
      rw [← Option.not_isSome_iff_eq_none, get_roundObservations_isSome]
      exact hfails
    rw [hnone]
    rfl

/-! ## One round -/

/-- Some identity that was nudged fails again. -/
def Repeats (d : ToolLoopDetector) (outcomes : List ToolCallFingerprint) : Prop :=
  ∃ identity ∈ d.interventionIdentities, Fails outcomes identity

/-- The streak of an identity is as long as the window. -/
def Fills (d : ToolLoopDetector) (identity : FailureIdentity) : Prop :=
  ∃ streak : FailureStreak, d.active[identity]? = some streak ∧ streak.fills d.window = true

theorem fills_iff (d : ToolLoopDetector) (hwindow : 1 ≤ d.window) (identity : FailureIdentity) :
    d.Fills identity ↔ d.window ≤ d.streakLength identity := by
  unfold Fills streakLength
  cases d.active[identity]? with
  | none =>
    constructor
    · rintro ⟨streak, hstreak, -⟩
      cases hstreak
    · intro hle
      have : d.window ≤ 0 := hle
      omega
  | some streak =>
    constructor
    · rintro ⟨_, hstreak, hfills⟩
      cases hstreak
      exact of_decide_eq_true hfills
    · exact fun hle => ⟨streak, rfl, decide_eq_true hle⟩

instance : Std.LawfulBEqCmp (compare : FailureIdentity → FailureIdentity → Ordering) :=
  ⟨compare_eq_iff_eq.trans beq_iff_eq.symm⟩

/-- A nudge is due exactly if some streak fills the window, and names the identities whose streaks
do. -/
theorem nudge_cases (d : ToolLoopDetector) :
    ((∀ identity, ¬d.Fills identity) ∧ d.nudge = (.none, d)) ∨
    ((∃ identity, d.Fills identity) ∧ ∃ identities evidence, d.nudge = (.injectNudge,
        { d with
          interventionIdentities := identities
          interventionEvidence := evidence
          stage := .nudged }) ∧
      ∀ identity, identity ∈ identities ↔ d.Fills identity) := by
  unfold nudge
  cases hfirst : OrderedMap.first? d.active (FailureStreak.fills d.window) with
  | none =>
    left
    refine ⟨?_, rfl⟩
    rintro identity ⟨streak, hstreak, hfills⟩
    exact OrderedMap.first?_eq_none_iff.mp hfirst identity streak hstreak hfills
  | some entry =>
    right
    obtain ⟨identity, streak⟩ := entry
    refine ⟨⟨identity, streak, OrderedMap.first?_some hfirst⟩, _, _, rfl, fun identity => ?_⟩
    · rw [Std.ExtTreeSet.mem_ofList, contains_iff_mem]
      exact OrderedMap.mem_keysWhere

/-- What a round with a failure leaves, apart from the intervention. -/
structure Counts (d : ToolLoopDetector) (outcomes : List ToolCallFingerprint)
    (d' : ToolLoopDetector) : Prop where
  window : d'.window = d.window
  stripOnSecondFire : d'.stripOnSecondFire = d.stripOnSecondFire
  streaks : ∀ identity, d'.streakLength identity =
    if Fails outcomes identity then min d.window (d.streakLength identity + 1) else 0

/-- **What one round does**, unless the tools are stripped: nothing fails, or a nudged identity
fails again, or the failures are new and a nudge may be due. -/
theorem recordRound_cases (d : ToolLoopDetector) (hwindow : 1 ≤ d.window)
    (hstage : d.stage ≠ .stripTools) (outcomes : List ToolCallFingerprint) :
    (unsuppressed outcomes = [] ∧ d.recordRound outcomes = (.none, d.reset)) ∨
    (unsuppressed outcomes ≠ [] ∧ Counts d outcomes (d.recordRound outcomes).2 ∧
      ((d.stage = .nudged ∧ d.Repeats outcomes ∧ d.stripOnSecondFire = true ∧
          (d.recordRound outcomes).1 = .stripTools ∧
          (d.recordRound outcomes).2.stage = .stripTools) ∨
        (d.stage = .nudged ∧ d.Repeats outcomes ∧ d.stripOnSecondFire = false ∧
          (d.recordRound outcomes).1 = .none ∧ (d.recordRound outcomes).2.stage = .nudged ∧
          (d.recordRound outcomes).2.interventionIdentities = d.interventionIdentities) ∨
        (¬(d.stage = .nudged ∧ d.Repeats outcomes) ∧
          (∀ identity, ¬(d.recordRound outcomes).2.Fills identity) ∧
          (d.recordRound outcomes).1 = .none ∧ (d.recordRound outcomes).2.stage = .none) ∨
        (¬(d.stage = .nudged ∧ d.Repeats outcomes) ∧
          (∃ identity, (d.recordRound outcomes).2.Fills identity) ∧
          (d.recordRound outcomes).1 = .injectNudge ∧
          (d.recordRound outcomes).2.stage = .nudged ∧
          ∀ identity, identity ∈ (d.recordRound outcomes).2.interventionIdentities ↔
            (d.recordRound outcomes).2.Fills identity))) := by
  have hzero : ¬d.window = 0 := by omega
  unfold recordRound
  rw [if_neg hzero]
  unfold applyRound
  by_cases hempty : unsuppressed outcomes = []
  · rw [if_pos ((isEmpty_roundObservations outcomes).mpr hempty)]
    exact .inl ⟨hempty, rfl⟩
  rw [if_neg fun h => hempty ((isEmpty_roundObservations outcomes).mp h)]
  refine .inr ⟨hempty, ?_⟩
  -- The streaks are updated in the same way in every case.
  have hcounts : ∀ d' : ToolLoopDetector, d'.window = d.window →
      d'.stripOnSecondFire = d.stripOnSecondFire →
      d'.active = updateActive d.active (roundObservations (roundFailures outcomes)) d.window →
      Counts d outcomes d' := by
    intro d' hwindow' hstrip' hactive
    refine ⟨hwindow', hstrip', fun identity => ?_⟩
    unfold streakLength
    rw [hactive]
    exact streakLength_updateActive d hwindow outcomes identity
  have hfresh : ∀ d' : ToolLoopDetector, d'.window = d.window →
      d'.stripOnSecondFire = d.stripOnSecondFire → d'.stage = .none →
      d'.active = updateActive d.active (roundObservations (roundFailures outcomes)) d.window →
      Counts d outcomes d'.nudge.2 ∧
        (((∀ identity, ¬d'.nudge.2.Fills identity) ∧ d'.nudge.1 = .none ∧
            d'.nudge.2.stage = .none) ∨
          ((∃ identity, d'.nudge.2.Fills identity) ∧ d'.nudge.1 = .injectNudge ∧
            d'.nudge.2.stage = .nudged ∧
            ∀ identity, identity ∈ d'.nudge.2.interventionIdentities ↔
              d'.nudge.2.Fills identity)) := by
    intro d' hwindow' hstrip' hstage' hactive
    rcases nudge_cases d' with ⟨hnone, heq⟩ | ⟨hsome, identities, evidence, heq, hmem⟩
    · rw [heq]
      exact ⟨hcounts d' hwindow' hstrip' hactive, .inl ⟨hnone, rfl, hstage'⟩⟩
    · rw [heq]
      exact ⟨hcounts _ hwindow' hstrip' hactive, .inr ⟨hsome, rfl, rfl, hmem⟩⟩
  cases hd : d.stage with
  | stripTools => exact absurd hd hstage
  | none =>
    obtain ⟨hcount, hcases⟩ := hfresh { d with
        active := updateActive d.active (roundObservations (roundFailures outcomes)) d.window
        stage := .none } rfl rfl rfl rfl
    refine ⟨hcount, ?_⟩
    have hnot : ¬(InterventionStage.none = .nudged ∧ d.Repeats outcomes) := fun h => by cases h.1
    rcases hcases with h | h
    · exact .inr (.inr (.inl ⟨hnot, h⟩))
    · exact .inr (.inr (.inr ⟨hnot, h⟩))
  | nudged =>
    simp only
    cases hfind : d.interventionIdentities.toList.find? fun identity =>
        (roundObservations (roundFailures outcomes)).contains identity with
    | none =>
      obtain ⟨hcount, hcases⟩ := hfresh { d with
          active := updateActive d.active (roundObservations (roundFailures outcomes)) d.window
          stage := .none
          interventionIdentities := ∅
          interventionEvidence := [] } rfl rfl rfl rfl
      refine ⟨hcount, ?_⟩
      have hnot : ¬(True ∧ d.Repeats outcomes) := by
        rintro ⟨-, identity, hmem, hfails⟩
        have hcontains := (contains_roundObservations outcomes identity).mpr hfails
        exact List.find?_eq_none.mp hfind identity (Std.ExtTreeSet.mem_toList.mpr hmem) hcontains
      rcases hcases with h | h
      · exact .inr (.inr (.inl ⟨hnot, h⟩))
      · exact .inr (.inr (.inr ⟨hnot, h⟩))
    | some identity =>
      have hcontains := List.find?_some hfind
      have hrepeats : d.Repeats outcomes :=
        ⟨identity, Std.ExtTreeSet.mem_toList.mp (mem_of_find?_eq_some hfind),
          (contains_roundObservations outcomes identity).mp hcontains⟩
      simp only
      by_cases hstrip : d.stripOnSecondFire = true
      · rw [if_pos hstrip]
        exact ⟨hcounts _ rfl rfl rfl, .inl ⟨trivial, hrepeats, hstrip, rfl, rfl⟩⟩
      · rw [if_neg hstrip]
        exact ⟨hcounts _ rfl rfl rfl,
          .inr (.inl ⟨trivial, hrepeats, Bool.eq_false_iff.mpr hstrip, rfl, rfl, rfl⟩)⟩

/-! ## Runs -/

/-- A detector in the course of a run, with the rounds since it was reset. -/
structure Playing where
  detector : ToolLoopDetector
  recent : List (List ToolCallFingerprint)

/-- One more round; if it strips the tools, they are given back before the next one. -/
def Playing.next (p : Playing) (outcomes : List ToolCallFingerprint) : Playing :=
  if unsuppressed outcomes = [] then ⟨(p.detector.recordRound outcomes).2, []⟩
  else if (p.detector.recordRound outcomes).1 = .stripTools then
    ⟨(p.detector.recordRound outcomes).2.clearStripTools, []⟩
  else ⟨(p.detector.recordRound outcomes).2, p.recent ++ [outcomes]⟩

/-- A new detector after some rounds. -/
def play (window : ℕ) (strip : Bool) (rounds : List (List ToolCallFingerprint)) : Playing :=
  rounds.foldl Playing.next ⟨new window strip, []⟩

theorem play_concat (window : ℕ) (strip : Bool) (rounds : List (List ToolCallFingerprint))
    (outcomes : List ToolCallFingerprint) :
    play window strip (rounds ++ [outcomes]) = (play window strip rounds).next outcomes := by
  unfold play
  rw [foldl_append, foldl_cons, foldl_nil]

/-- In an earlier round a nudge was returned, and every round since then held one of the
identities that had filled the window in that round. -/
def Chased (window : ℕ) (strip : Bool) (rounds : List (List ToolCallFingerprint))
    (nudged : FailureIdentity → Prop) : Prop :=
  ∃ before nudging between, rounds = before ++ nudging :: between ∧
    ((play window strip before).detector.recordRound nudging).1 = .injectNudge ∧
    (∀ identity, nudged identity ↔
      window ≤ streakOf ((play window strip before).recent ++ [nudging]) identity) ∧
    ∀ later ∈ between, ∃ identity, nudged identity ∧ Fails later identity

variable {window : ℕ} {strip : Bool} {rounds : List (List ToolCallFingerprint)}
  {outcomes : List ToolCallFingerprint}

theorem Chased.concat {nudged : FailureIdentity → Prop} (h : Chased window strip rounds nudged)
    (houtcomes : ∃ identity, nudged identity ∧ Fails outcomes identity) :
    Chased window strip (rounds ++ [outcomes]) nudged := by
  obtain ⟨before, nudging, between, rfl, hnudge, hnudged, hbetween⟩ := h
  refine ⟨before, nudging, between ++ [outcomes], by simp, hnudge, hnudged, fun later hlater => ?_⟩
  rcases mem_append.mp hlater with hlater | hlater
  · exact hbetween later hlater
  · rw [mem_singleton.mp hlater]
    exact houtcomes

/-- The state of a detector is what its rounds say. -/
structure Tracks (window : ℕ) (strip : Bool) (rounds : List (List ToolCallFingerprint))
    (p : Playing) : Prop where
  sameWindow : p.detector.window = window
  sameStrip : p.detector.stripOnSecondFire = strip
  streaks : ∀ identity, p.detector.streakLength identity = min window (streakOf p.recent identity)
  stage : p.detector.stage ≠ .stripTools
  nudged : p.detector.stage = .nudged →
    Chased window strip rounds fun identity => identity ∈ p.detector.interventionIdentities

theorem tracks_new (window : ℕ) (strip : Bool) : Tracks window strip [] ⟨new window strip, []⟩ where
  sameWindow := rfl
  sameStrip := rfl
  streaks identity := (Nat.min_zero window).symm
  stage h := by cases h
  nudged h := by cases h

variable {d : ToolLoopDetector}

theorem reset_eq_new (hwindow : d.window = window) (hstrip : d.stripOnSecondFire = strip) :
    d.reset = new window strip := by
  unfold reset new
  rw [hwindow, hstrip]

theorem tracks_reset (hwindow : d.window = window) (hstrip : d.stripOnSecondFire = strip) :
    Tracks window strip rounds ⟨d.reset, []⟩ := by
  rw [reset_eq_new hwindow hstrip]
  exact ⟨rfl, rfl, fun _ => (Nat.min_zero window).symm, fun h => (by cases h),
    fun h => (by cases h)⟩

theorem Tracks.streaks_counts {p : Playing} (h : Tracks window strip rounds p)
    (hcounts : Counts p.detector outcomes d) (identity : FailureIdentity) :
    d.streakLength identity = min window (streakOf (p.recent ++ [outcomes]) identity) := by
  rw [hcounts.streaks, streakOf_concat, h.sameWindow, h.streaks]
  by_cases hfails : Fails outcomes identity
  · rw [if_pos hfails, if_pos hfails]
    omega
  · rw [if_neg hfails, if_neg hfails, Nat.min_zero]

/-- A round with a failure fills the window for the identities that were in every round of it. -/
theorem Tracks.fills_iff (hwindow : 1 ≤ window) {p : Playing} (h : Tracks window strip rounds p)
    (hcounts : Counts p.detector outcomes d) (identity : FailureIdentity) :
    d.Fills identity ↔ window ≤ streakOf (p.recent ++ [outcomes]) identity := by
  have hd : d.window = window := hcounts.window.trans h.sameWindow
  rw [ToolLoopDetector.fills_iff d (hd ▸ hwindow), hd, h.streaks_counts hcounts]
  omega

theorem Tracks.next (hwindow : 1 ≤ window)
    (h : Tracks window strip rounds (play window strip rounds))
    (outcomes : List ToolCallFingerprint) :
    Tracks window strip (rounds ++ [outcomes]) (play window strip (rounds ++ [outcomes])) := by
  have hpositive : 1 ≤ (play window strip rounds).detector.window := by
    rw [h.sameWindow]
    exact hwindow
  rw [play_concat]
  unfold Playing.next
  rcases recordRound_cases (play window strip rounds).detector hpositive h.stage
    outcomes with ⟨hempty, heq⟩ | ⟨hempty, hcounts, hcases⟩
  · rw [if_pos hempty, heq]
    exact tracks_reset h.sameWindow h.sameStrip
  rw [if_neg hempty]
  rcases hcases with ⟨-, -, -, haction, hstage'⟩ |
    ⟨hstage, hrepeats, hstrip, haction, hstage', hidentities⟩ |
    ⟨hnew, hfills, haction, hstage'⟩ | ⟨hnew, hfills, haction, hstage', hidentities⟩
  · rw [if_pos haction]
    unfold clearStripTools
    rw [if_pos hstage']
    exact tracks_reset (hcounts.window.trans h.sameWindow)
      (hcounts.stripOnSecondFire.trans h.sameStrip)
  · rw [if_neg (by rw [haction]; decide)]
    refine ⟨hcounts.window.trans h.sameWindow, hcounts.stripOnSecondFire.trans h.sameStrip,
      h.streaks_counts hcounts, by rw [hstage']; decide, fun _ => ?_⟩
    simp only [hidentities]
    exact (h.nudged hstage).concat hrepeats
  · rw [if_neg (by rw [haction]; decide)]
    exact ⟨hcounts.window.trans h.sameWindow, hcounts.stripOnSecondFire.trans h.sameStrip,
      h.streaks_counts hcounts, by rw [hstage']; decide, fun hn => by rw [hstage'] at hn; cases hn⟩
  · rw [if_neg (by rw [haction]; decide)]
    refine ⟨hcounts.window.trans h.sameWindow, hcounts.stripOnSecondFire.trans h.sameStrip,
      h.streaks_counts hcounts, by rw [hstage']; decide, fun _ => ?_⟩
    refine ⟨rounds, outcomes, [], rfl, haction, fun identity => ?_,
      fun later hlater => absurd hlater not_mem_nil⟩
    exact (hidentities identity).trans (h.fills_iff hwindow hcounts identity)

theorem tracks_play {window : ℕ} (hwindow : 1 ≤ window) (strip : Bool)
    (rounds : List (List ToolCallFingerprint)) :
    Tracks window strip rounds (play window strip rounds) := by
  induction rounds using List.reverseRecOn with
  | nil => exact tracks_new window strip
  | append_singleton rounds outcomes ih => exact ih.next hwindow outcomes

/-- **One more round of any run.**  The streaks are as long as the rounds since the reset say, up
to the window.  A nudge is returned exactly if no class in force is repeated and some identity was
in every round of the window; the tools are stripped only if it was chosen so and a nudged identity
was in every round since the nudge; and a round without failures resets everything. -/
theorem escalation {window : ℕ} (hwindow : 1 ≤ window) (strip : Bool)
    (rounds : List (List ToolCallFingerprint)) (outcomes : List ToolCallFingerprint) :
    (∀ identity, ((play window strip rounds).detector.recordRound outcomes).2.streakLength identity =
        min window (streakOf ((play window strip rounds).recent ++ [outcomes]) identity)) ∧
      (((play window strip rounds).detector.recordRound outcomes).1 = .injectNudge ↔
        ¬((play window strip rounds).detector.stage ≠ .none ∧
            (play window strip rounds).detector.Repeats outcomes) ∧
          ∃ identity,
            window ≤ streakOf ((play window strip rounds).recent ++ [outcomes]) identity) ∧
      (((play window strip rounds).detector.recordRound outcomes).1 = .stripTools →
        strip = true ∧ ∃ nudged, Chased window strip rounds nudged ∧
          ∃ identity, nudged identity ∧ Fails outcomes identity) ∧
      (unsuppressed outcomes = [] →
        (play window strip rounds).detector.recordRound outcomes = (.none, new window strip)) := by
  have h := tracks_play hwindow strip rounds
  have hnudged : (play window strip rounds).detector.stage ≠ .none ↔
      (play window strip rounds).detector.stage = .nudged := by
    have hstage := h.stage
    cases hs : (play window strip rounds).detector.stage with
    | none => simp
    | nudged => simp
    | stripTools => exact absurd hs hstage
  rw [hnudged]
  have hpositive : 1 ≤ (play window strip rounds).detector.window := by
    rw [h.sameWindow]
    exact hwindow
  rcases recordRound_cases (play window strip rounds).detector hpositive h.stage
    outcomes with ⟨hempty, heq⟩ | ⟨hempty, hcounts, hcases⟩
  · -- Nothing fails: no identity is in the round.
    have hfails : ∀ identity, streakOf ((play window strip rounds).recent ++ [outcomes]) identity =
        0 := by
      intro identity
      rw [streakOf_concat, if_neg]
      rintro ⟨failure, hmem, -⟩
      rw [hempty] at hmem
      exact List.not_mem_nil hmem
    have hreset := reset_eq_new h.sameWindow h.sameStrip
    rw [heq]
    refine ⟨fun identity => ?_, ⟨fun ha => (by cases ha), ?_⟩, fun ha => (by cases ha), fun _ => ?_⟩
    · rw [hfails, Nat.min_zero]
      rfl
    · rintro ⟨-, identity, hle⟩
      rw [hfails] at hle
      omega
    · rw [hreset]
  refine ⟨h.streaks_counts hcounts, ?_, ?_, fun hnil => absurd hnil hempty⟩
  · have hfills : (∃ identity,
        ((play window strip rounds).detector.recordRound outcomes).2.Fills identity) ↔
        ∃ identity, window ≤ streakOf ((play window strip rounds).recent ++ [outcomes]) identity :=
      exists_congr fun identity => h.fills_iff hwindow hcounts identity
    rw [← hfills]
    rcases hcases with ⟨hstage, hrepeats, -, haction, -⟩ | ⟨hstage, hrepeats, -, haction, -⟩ |
      ⟨hnew, hnone, haction, -⟩ | ⟨hnew, hsome, haction, -⟩
    · rw [haction]
      exact ⟨fun ha => (by cases ha), fun ha => absurd ⟨hstage, hrepeats⟩ ha.1⟩
    · rw [haction]
      exact ⟨fun ha => (by cases ha), fun ha => absurd ⟨hstage, hrepeats⟩ ha.1⟩
    · rw [haction]
      refine ⟨fun ha => (by cases ha), ?_⟩
      rintro ⟨-, identity, hidentity⟩
      exact absurd hidentity (hnone identity)
    · exact ⟨fun _ => ⟨hnew, hsome⟩, fun _ => haction⟩
  · intro ha
    rcases hcases with ⟨hstage, hrepeats, hstrip, -⟩ | ⟨-, -, -, haction, -⟩ |
      ⟨-, -, haction, -⟩ | ⟨-, -, haction, -⟩
    · exact ⟨h.sameStrip.symm.trans hstrip, _, h.nudged hstage, hrepeats⟩
    · rw [haction] at ha
      cases ha
    · rw [haction] at ha
      cases ha
    · rw [haction] at ha
      cases ha

/-! One operation that fails in every round. -/

/-- A batch of one failure without an error text. -/
def failingRound : List ToolCallFingerprint :=
  [.failure (fun _ => 0) "exec" (.obj []) none]

theorem escalation_after_nudge :
    ((play 2 true [failingRound, failingRound]).detector.recordRound failingRound).1 =
        .stripTools ∧
      ∃ nudged, Chased 2 true [failingRound, failingRound] nudged ∧
        ∃ identity, nudged identity ∧ Fails failingRound identity := by
  have hstrip : ((play 2 true [failingRound, failingRound]).detector.recordRound failingRound).1 =
      .stripTools := by decide +kernel
  exact ⟨hstrip, ((escalation (by decide +kernel) true [failingRound, failingRound]
    failingRound).2.2.1 hstrip).2⟩

/-- After the turn without tools the window starts anew, so the rounds before it do not count for a
nudge. -/
theorem not_nudged_after_strip : ¬∀ (window : ℕ) (strip : Bool)
    (rounds : List (List ToolCallFingerprint)) (outcomes : List ToolCallFingerprint), 1 ≤ window →
    (((play window strip rounds).detector.recordRound outcomes).1 = .injectNudge ↔
      ¬((play window strip rounds).detector.stage ≠ .none ∧
          (play window strip rounds).detector.Repeats outcomes) ∧
        ∃ identity, window ≤ streakOf (rounds ++ [outcomes]) identity) := by
  intro h
  have hnudge := (h 2 true [failingRound, failingRound, failingRound] failingRound
    (by decide +kernel)).mpr ⟨?_, .arguments "exec" 0, by decide⟩
  · exact absurd hnudge (by decide +kernel)
  · rintro ⟨hstage, -⟩
    exact hstage (by decide +kernel)

end ToolLoopDetector

end Chelix.Agents
