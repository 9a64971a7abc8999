import Chelix.Agents.ToolLoopDetector
import Mathlib

/-!
# When a round is independent of the order of its batch

A round keeps one representative of each failure identity: the first of those with the least
sort key.  The sort key holds the canonical text of the arguments, and that text does not
tell all arguments apart, so the first one can depend on the order of the batch.
-/

namespace Chelix.Agents

open Chelix.Library List ToolCallFingerprint OrderedMap FailureStreak

namespace ToolLoopDetector

/-! ## The representative of an identity -/

/-- What the search for the representative of an identity tests. -/
def carries (identity : FailureIdentity) (f : ToolCallFingerprint) : Bool :=
  decide (identity ∈ f.identities)

variable {f : ToolCallFingerprint}

theorem isLE_fingerprintCmp {g : ToolCallFingerprint} :
    (fingerprintCmp f g).isLE ↔ f.sortKey ≤ g.sortKey := by
  rw [← compare_le_iff_le]
  unfold fingerprintCmp
  cases compare f.sortKey g.sortKey <;> decide

theorem identities_eq_of_normalize_eq {g : ToolCallFingerprint} (h : f.normalize = g.normalize) :
    f.identities = g.identities := by
  simp only [ToolCallFingerprint.normalize, ToolCallFingerprint.mk.injEq] at h
  obtain ⟨htool, hargs, -, herror, -⟩ := h
  unfold ToolCallFingerprint.identities ToolCallFingerprint.argumentIdentity
  rw [htool, hargs, herror]

/-- What is held for each identity is not above the failures that are still to come. -/
def Below (observations : Observations) (failures : List ToolCallFingerprint) : Prop :=
  ∀ (identity : FailureIdentity) (current : ToolCallFingerprint),
    observations[identity]? = some current →
    ∀ failure ∈ failures, current.sortKey ≤ failure.sortKey

variable {observations : Observations}

theorem get_foldl_observe {failure : ToolCallFingerprint} (identities : List FailureIdentity)
    (hbelow : Below observations [failure]) (identity : FailureIdentity) :
    (identities.foldl (observe failure) observations)[identity]? =
      observations[identity]?.or (if identity ∈ identities then some failure else none) := by
  induction identities generalizing observations with
  | nil => simp
  | cons first rest ih =>
    have hobserve : ∀ i, (observe failure observations first)[i]? =
        observations[i]?.or (if i = first then some failure else none) := by
      intro i
      unfold observe
      cases hcurrent : observations[first]? with
      | some current =>
        have hle := isLE_fingerprintCmp.mpr
          (hbelow first current hcurrent failure (mem_singleton_self _))
        simp only [hle, if_true]
        by_cases hi : i = first
        · simp [hi, hcurrent]
        · simp [hi]
      | none =>
        simp only [get_insert]
        by_cases hi : i = first
        · simp [hi, hcurrent]
        · rw [if_neg (Ne.symm hi)]
          simp [hi]
    have hbelow' : Below (observe failure observations first) [failure] := by
      intro i current hi f hf
      rw [hobserve] at hi
      rw [mem_singleton.mp hf]
      cases hold : observations[i]? with
      | some old =>
        simp only [hold, Option.some_or, Option.some_inj] at hi
        exact hi ▸ hbelow i old hold failure (mem_singleton_self _)
      | none =>
        simp only [hold, Option.none_or] at hi
        split at hi
        · rw [Option.some_inj.mp hi]
        · cases hi
    rw [foldl_cons, ih hbelow', hobserve]
    cases observations[identity]? with
    | some _ => rfl
    | none =>
      by_cases hi : identity = first
      · simp [hi]
      · simp [hi]

theorem get_foldl_failures (failures : List ToolCallFingerprint)
    (hbelow : Below observations failures)
    (hsorted : failures.Pairwise fun f g => f.sortKey ≤ g.sortKey) (identity : FailureIdentity) :
    (failures.foldl (fun observations failure =>
        failure.identities.foldl (observe failure) observations) observations)[identity]? =
      observations[identity]?.or (failures.find? (carries identity)) := by
  induction failures generalizing observations with
  | nil => simp
  | cons failure rest ih =>
    rw [pairwise_cons] at hsorted
    have hhead : Below observations [failure] := by
      intro i current hi f hf
      rw [mem_singleton.mp hf]
      exact hbelow i current hi failure (mem_cons_self ..)
    have hget := fun i => get_foldl_observe failure.identities hhead i
    have hbelow' : Below (failure.identities.foldl (observe failure) observations) rest := by
      intro i current hi f hf
      rw [hget] at hi
      cases hold : observations[i]? with
      | some old =>
        rw [hold, Option.some_or, Option.some_inj] at hi
        exact hi ▸ hbelow i old hold f (mem_cons_of_mem _ hf)
      | none =>
        rw [hold, Option.none_or] at hi
        split at hi
        · exact Option.some_inj.mp hi ▸ hsorted.1 f hf
        · cases hi
    rw [foldl_cons, ih hbelow' hsorted.2, hget, Option.or_assoc]
    congr 1
    by_cases hi : identity ∈ failure.identities
    · rw [if_pos hi, List.find?_cons_of_pos (by simpa [carries] using hi), Option.some_or]
    · rw [if_neg hi, List.find?_cons_of_neg (by simpa [carries] using hi), Option.none_or]

/-- **The representative of an identity** is the first failure that carries it, in the stable
order of the sort keys. -/
theorem get_roundObservations (outcomes : List ToolCallFingerprint) (identity : FailureIdentity) :
    (roundObservations (roundFailures outcomes))[identity]? =
      (sortByKey sortKey (unsuppressed outcomes)).find? (carries identity) := by
  have hsorted : (roundFailures outcomes).Pairwise fun f g => f.sortKey ≤ g.sortKey :=
    (pairwise_sortByKey _ _).sublist (destutter_sublist _ _)
  have hbelow : Below ∅ (roundFailures outcomes) := by
    intro i current hi
    simp at hi
  rw [roundObservations, get_foldl_failures _ hbelow hsorted, Std.ExtTreeMap.getElem?_empty,
    Option.none_or]
  refine find?_destutter (fun f g hfg => ?_) _
  rw [carries, carries, identities_eq_of_normalize_eq hfg]

/-! ## Rounds of equal observations -/

theorem FailureStreak.normalize_push (streak : FailureStreak) (observation : ToolCallFingerprint)
    (window : ℕ) :
    (streak.push observation window).normalize =
      streak.normalize.push observation.normalize window := by
  simp only [FailureStreak.push, FailureStreak.normalize, map_drop, map_append,
    map_singleton, length_append, length_map, length_singleton]

theorem get_updateActive (active : Streaks) (observations : Observations) (window : ℕ)
    (identity : FailureIdentity) :
    (updateActive active observations window)[identity]? =
      observations[identity]?.map fun observation =>
        match active[identity]? with
        | some streak => streak.push observation window
        | none => .new observation := by
  unfold updateActive
  rw [get_upsertAll, get_filterKeys, contains_eq_isSome]
  cases observations[identity]? <;> rfl

theorem updateActive_normalize (active : Streaks) (observations : Observations) (window : ℕ) :
    updateActive (active.map fun _ => FailureStreak.normalize)
        (observations.map fun _ => ToolCallFingerprint.normalize) window =
      (updateActive active observations window).map fun _ => FailureStreak.normalize := by
  refine OrderedMap.ext fun identity => ?_
  rw [OrderedMap.get_map, get_updateActive, get_updateActive, OrderedMap.get_map,
    OrderedMap.get_map]
  cases observations[identity]? with
  | none => rfl
  | some observation =>
    cases active[identity]? with
    | none => rfl
    | some streak =>
      simp only [Option.map_some, FailureStreak.normalize_push]

variable (d : ToolLoopDetector)

theorem nudge_normalize :
    d.normalize.nudge = (d.nudge.1, d.nudge.2.normalize) := by
  have hfills : FailureStreak.fills d.window ∘ FailureStreak.normalize =
      FailureStreak.fills d.window := by
    funext streak
    simp [FailureStreak.fills, FailureStreak.normalize]
  have hfirst := OrderedMap.first?_map d.active FailureStreak.normalize
    (FailureStreak.fills d.window)
  have hkeys := OrderedMap.keysWhere_map d.active FailureStreak.normalize
    (FailureStreak.fills d.window)
  rw [hfills] at hfirst hkeys
  unfold nudge
  simp only [normalize, hfirst, hkeys]
  cases OrderedMap.first? d.active (FailureStreak.fills d.window) with
  | none | some entry => rfl

/-- **A round commutes with taking representatives**: equal observations, in equal detectors,
give the same action and equal detectors. -/
theorem applyRound_normalize (observations : Observations) :
    d.normalize.applyRound (observations.map fun _ => ToolCallFingerprint.normalize) =
      ((d.applyRound observations).1, (d.applyRound observations).2.normalize) := by
  unfold applyRound
  rw [OrderedMap.isEmpty_map]
  by_cases hempty : observations.isEmpty
  · rw [if_pos hempty, if_pos hempty]
    simp only [reset, normalize, map_nil, Prod.mk.injEq, true_and]
    congr 1
  · rw [if_neg hempty, if_neg hempty]
    have hupdate := updateActive_normalize d.active observations d.window
    have hcontains : (fun identity => (observations.map fun _ =>
        ToolCallFingerprint.normalize).contains identity) =
          fun identity => observations.contains identity := by
      funext identity
      rw [OrderedMap.contains_map]
    cases hstage : d.stage with
    | stripTools => simp only [normalize, hstage, hupdate]
    | nudged =>
      simp only [normalize, hstage, hupdate, hcontains]
      cases d.interventionIdentities.toList.find? fun identity =>
          observations.contains identity with
      | some identity =>
        cases hstrip : d.stripOnSecondFire with
        | false => rfl
        | true =>
          simp only [if_true, Prod.mk.injEq, true_and, OrderedMap.get_map]
          cases (updateActive d.active observations d.window)[identity]? with
          | none => simp
          | some streak => simp [FailureStreak.normalize]
      | none =>
        exact nudge_normalize
          { d with
            active := updateActive d.active observations d.window
            stage := .none
            interventionIdentities := ∅
            interventionEvidence := [] }
    | none =>
      simp only [normalize, hstage, hupdate]
      have h := nudge_normalize { d with active := updateActive d.active observations d.window }
      simp only [normalize, hstage] at h
      exact h

theorem nudge_active : d.nudge.2.active = d.active := by
  unfold nudge
  split <;> rfl

theorem active_applyRound (hobs : observations.isEmpty = false) :
    (d.applyRound observations).2.active = updateActive d.active observations d.window := by
  unfold applyRound
  rw [hobs, if_neg Bool.false_ne_true]
  cases hstage : d.stage with
  | stripTools => rfl
  | nudged =>
    simp only
    split
    · split <;> rfl
    · exact nudge_active _
  | none => exact nudge_active _

theorem getLast?_push (streak : FailureStreak) (observation : ToolCallFingerprint) {window : ℕ}
    (hwindow : window ≠ 0) :
    (streak.push observation window).observations.getLast? = some observation := by
  simp only [push, length_append, length_singleton]
  rw [drop_append_of_le_length (by omega), List.getLast?_concat]

variable {outcomes : List ToolCallFingerprint} {identity : FailureIdentity}

theorem getLast?_recordRound (hwindow : d.window ≠ 0)
    (hf : (roundObservations (roundFailures outcomes))[identity]? = some f) :
    ∃ streak, (d.recordRound outcomes).2.active[identity]? = some streak ∧
      streak.observations.getLast? = some f := by
  have hempty : (roundObservations (roundFailures outcomes)).isEmpty = false := by
    rw [Bool.eq_false_iff]
    intro h
    rw [Std.ExtTreeMap.isEmpty_iff.mp h] at hf
    simp at hf
  rw [recordRound, if_neg hwindow, active_applyRound d hempty, get_updateActive, hf]
  cases d.active[identity]? with
  | some streak => exact ⟨_, rfl, getLast?_push streak f hwindow⟩
  | none => exact ⟨_, rfl, rfl⟩

/-! ## Separated batches -/

/-- Whether a failure of the batch could be the representative of an identity: no success
suppresses it, it carries the identity, and no such failure has a smaller sort key. -/
structure Represents (outcomes : List ToolCallFingerprint) (identity : FailureIdentity)
    (f : ToolCallFingerprint) : Prop where
  mem : f ∈ unsuppressed outcomes
  carries : identity ∈ f.identities
  least : ∀ g ∈ unsuppressed outcomes, identity ∈ g.identities → f.sortKey ≤ g.sortKey

/-- The possible representatives of an identity are equal. -/
def Separated (outcomes : List ToolCallFingerprint) : Prop :=
  ∀ identity f g, Represents outcomes identity f → Represents outcomes identity g →
    f.normalize = g.normalize

/-- Two batches give the same action and equal detectors. -/
def SameRound (d : ToolLoopDetector) (outcomes outcomes' : List ToolCallFingerprint) : Prop :=
  (d.recordRound outcomes).1 = (d.recordRound outcomes').1 ∧
    (d.recordRound outcomes).2.normalize = (d.recordRound outcomes').2.normalize

variable {outcomes' : List ToolCallFingerprint}

theorem unsuppressed_perm (h : outcomes.Perm outcomes') :
    (unsuppressed outcomes).Perm (unsuppressed outcomes') := by
  have hsuccessful : (successfulOperations outcomes).Perm (successfulOperations outcomes') :=
    (h.filter _).map _
  have hsurvives : survives (successfulOperations outcomes) =
      survives (successfulOperations outcomes') := by
    funext outcome
    simp only [survives, hsuccessful.mem_iff]
  rw [unsuppressed, hsurvives]
  exact h.filter _

theorem Represents.perm (h : outcomes.Perm outcomes') (hf : Represents outcomes' identity f) :
    Represents outcomes identity f where
  mem := (unsuppressed_perm h).mem_iff.mpr hf.mem
  carries := hf.carries
  least := fun g hg => hf.least g ((unsuppressed_perm h).mem_iff.mp hg)

theorem represents_of_get (hf : (roundObservations (roundFailures outcomes))[identity]? = some f) :
    Represents outcomes identity f := by
  rw [get_roundObservations] at hf
  refine ⟨(mem_sortByKey _).mp (mem_of_find?_eq_some hf), ?_, fun g hg hcarries => ?_⟩
  · simpa [carries] using List.find?_some hf
  · exact key_le_of_find?_sortByKey _ hf hg (decide_eq_true hcarries)

theorem exists_perm_get (hf : Represents outcomes identity f) :
    ∃ outcomes', outcomes.Perm outcomes' ∧
      (roundObservations (roundFailures outcomes'))[identity]? = some f := by
  have hmem : f ∈ outcomes := mem_of_mem_filter hf.mem
  have hperm : outcomes.Perm (f :: outcomes.erase f) := perm_cons_erase hmem
  refine ⟨_, hperm, ?_⟩
  have hf' := hf.perm hperm.symm
  have hpass := (mem_filter.mp hf'.mem).2
  have hhead : ∃ rest, unsuppressed (f :: outcomes.erase f) = f :: rest :=
    ⟨_, filter_cons_of_pos hpass⟩
  obtain ⟨rest, hrest⟩ := hhead
  rw [get_roundObservations, hrest]
  refine find?_sortByKey_cons _ (decide_eq_true hf.carries) fun g hg hcarries => ?_
  have hg' : g ∈ unsuppressed (f :: outcomes.erase f) := by
    rw [hrest]
    exact mem_cons_of_mem _ hg
  exact hf'.least g hg' (of_decide_eq_true hcarries)

theorem separated_of_sameRound {d : ToolLoopDetector} (hwindow : d.window ≠ 0)
    (hsame : ∀ outcomes', outcomes.Perm outcomes' → SameRound d outcomes outcomes') :
    Separated outcomes := by
  intro identity f g hf hg
  obtain ⟨first, hfirst, hfget⟩ := exists_perm_get hf
  obtain ⟨second, hsecond, hgget⟩ := exists_perm_get hg
  obtain ⟨streak, hstreak, hlast⟩ := getLast?_recordRound d hwindow hfget
  obtain ⟨streak', hstreak', hlast'⟩ := getLast?_recordRound d hwindow hgget
  have hdetector : (d.recordRound first).2.normalize = (d.recordRound second).2.normalize :=
    (hsame first hfirst).2.symm.trans (hsame second hsecond).2
  have hactive := congrArg (fun d : ToolLoopDetector => d.active[identity]?) hdetector
  simp only [normalize, OrderedMap.get_map, hstreak, hstreak', Option.map_some,
    Option.some_inj] at hactive
  have hobservations := congrArg (fun streak => streak.observations.getLast?) hactive
  simp only [FailureStreak.normalize, List.getLast?_map, hlast, hlast', Option.map_some,
    Option.some_inj] at hobservations
  exact hobservations

theorem sameRound_of_separated (hseparated : Separated outcomes)
    (hperm : outcomes.Perm outcomes') : SameRound d outcomes outcomes' := by
  have hobs : (roundObservations (roundFailures outcomes)).map
        (fun _ => ToolCallFingerprint.normalize) =
      (roundObservations (roundFailures outcomes')).map
        fun _ => ToolCallFingerprint.normalize := by
    refine OrderedMap.ext fun identity => ?_
    rw [OrderedMap.get_map, OrderedMap.get_map]
    have hsorted := unsuppressed_perm hperm
    cases hf : (roundObservations (roundFailures outcomes))[identity]? with
    | some f =>
      have hrep := represents_of_get hf
      cases hg : (roundObservations (roundFailures outcomes'))[identity]? with
      | some g =>
        rw [Option.map_some, Option.map_some,
          hseparated identity f g hrep ((represents_of_get hg).perm hperm)]
      | none =>
        rw [get_roundObservations, List.find?_eq_none] at hg
        have hmem := (mem_sortByKey ToolCallFingerprint.sortKey).mpr
          (hsorted.mem_iff.mp hrep.mem)
        exact absurd (decide_eq_true hrep.carries) (hg f hmem)
    | none =>
      cases hg : (roundObservations (roundFailures outcomes'))[identity]? with
      | some g =>
        have hrep := represents_of_get hg
        rw [get_roundObservations, List.find?_eq_none] at hf
        have hmem := (mem_sortByKey ToolCallFingerprint.sortKey).mpr
          (hsorted.mem_iff.mpr hrep.mem)
        exact absurd (decide_eq_true hrep.carries) (hf g hmem)
      | none => rfl
  have hround := applyRound_normalize d (roundObservations (roundFailures outcomes))
  have hround' := applyRound_normalize d (roundObservations (roundFailures outcomes'))
  rw [← hobs, hround, Prod.mk.injEq] at hround'
  unfold SameRound recordRound
  by_cases hwindow : d.window = 0
  · rw [if_pos hwindow, if_pos hwindow]
    exact ⟨rfl, rfl⟩
  · rw [if_neg hwindow, if_neg hwindow]
    exact hround'

/-- **When a round disregards the order of its batch.**  A round gives the same action and an
equal detector for every order of its batch exactly when the detector is disabled or the
batch is separated. -/
theorem recordRound_perm_iff (d : ToolLoopDetector) (outcomes : List ToolCallFingerprint) :
    (∀ outcomes', outcomes.Perm outcomes' → SameRound d outcomes outcomes') ↔
      d.window = 0 ∨ Separated outcomes := by
  constructor
  · intro hsame
    by_cases hwindow : d.window = 0
    · exact Or.inl hwindow
    · exact Or.inr (separated_of_sameRound hwindow hsame)
  · rintro (hwindow | hseparated) outcomes' hperm
    · unfold SameRound recordRound
      rw [if_pos hwindow, if_pos hwindow]
      exact ⟨rfl, rfl⟩
    · exact sameRound_of_separated d hseparated hperm

/-! ## Two arguments with one text -/

/-- A fingerprint that the program makes of a tool call. -/
def Recorded (hash : String → UInt64) (f : ToolCallFingerprint) : Prop :=
  (∃ toolName arguments, f = .success hash toolName arguments) ∨
    ∃ toolName arguments error, f = .failure hash toolName arguments error

/-- One field, whose text looks like the end of a field and another one. -/
def joinedArguments : Json := .obj [("a", .str "x\",\"b\":\"y")]

def splitArguments : Json := .obj [("a", .str "x"), ("b", .str "y")]

theorem canonicalize_joinedArguments :
    canonicalize joinedArguments = canonicalize splitArguments := by
  decide

/-- **The two failures have one sort key and are different**: whatever the hash is, the order
of the batch decides which of them represents the round. -/
theorem not_order_independent :
    ¬ ∃ hash : String → UInt64, ∀ (d : ToolLoopDetector) (outcomes outcomes' :
        List ToolCallFingerprint), (∀ f ∈ outcomes, Recorded hash f) →
      outcomes.Perm outcomes' → SameRound d outcomes outcomes' := by
  rintro ⟨hash, hsame⟩
  let f : ToolCallFingerprint := .failure hash "exec" joinedArguments (some "failed")
  let g : ToolCallFingerprint := .failure hash "exec" splitArguments (some "failed")
  have hrecorded : ∀ h ∈ [f, g], Recorded hash h := by
    intro h hh
    simp only [List.mem_cons, List.not_mem_nil, or_false] at hh
    rcases hh with rfl | rfl
    · exact Or.inr ⟨_, _, _, rfl⟩
    · exact Or.inr ⟨_, _, _, rfl⟩
  have hseparated : Separated [f, g] :=
    separated_of_sameRound (d := new 1 true) one_ne_zero
      fun outcomes' hperm => hsame (new 1 true) [f, g] outcomes' hrecorded hperm
  have hargs : f.argsHash = g.argsHash := congrArg hash canonicalize_joinedArguments
  have hkey : f.sortKey = g.sortKey := by
    simp only [ToolCallFingerprint.sortKey, f, g, ToolCallFingerprint.failure,
      canonicalize_joinedArguments]
  have hunsuppressed : unsuppressed [f, g] = [f, g] := rfl
  have hleast : ∀ h ∈ unsuppressed [f, g], f.sortKey ≤ h.sortKey := by
    rw [hunsuppressed]
    intro h hh
    simp only [List.mem_cons, List.not_mem_nil, or_false] at hh
    rcases hh with rfl | rfl
    · exact le_rfl
    · exact hkey.le
  have hf : Represents [f, g] f.argumentIdentity f :=
    ⟨List.mem_cons_self .., List.mem_cons_self .., fun h hh _ => hleast h hh⟩
  have hg : Represents [f, g] f.argumentIdentity g := by
    refine ⟨List.mem_cons_of_mem _ (List.mem_singleton_self g), ?_,
      fun h hh _ => hkey ▸ hleast h hh⟩
    rw [ToolCallFingerprint.argumentIdentity, hargs]
    exact List.mem_cons_self ..
  have hequal := congrArg ToolCallFingerprint.arguments (hseparated _ f g hf hg)
  have hdistinct : joinedArguments.normalize ≠ splitArguments.normalize := by decide
  exact hdistinct hequal

end ToolLoopDetector

end Chelix.Agents
