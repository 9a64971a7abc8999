import Chelix.Library.Json
import Chelix.Library.OrderedMap
import Mathlib.Order.WithBot

/-!
# The tool loop detector

A batch of tool calls emitted by one response is one observation round.  The detector keeps,
for each failure identity that failed in every recent round, one representative failure a
round; when a streak is as long as the window it first nudges the model and then strips its
tools.

The hash of a string is a parameter: what matters here is that it is a function.
-/

namespace Chelix.Agents

open Chelix.Library

/-- The text that stands for a value in a comparison and in a hash.  Strings and names are
quoted without any escape. -/
def quote (s : String) : String := "\"" ++ s ++ "\""

mutual

def canonicalize : Json → String
  | .null => "null"
  | .bool b => toString b
  | .num n => n.toString
  | .str s => quote s
  | .arr elems => "[" ++ ",".intercalate (canonicalizeList elems) ++ "]"
  | .obj fields =>
    "\x7b" ++ ",".intercalate
      ((sortByKey Prod.fst (canonicalizeFields fields)).map fun field =>
        quote field.1 ++ ":" ++ field.2) ++ "\x7d"

def canonicalizeList : List Json → List String
  | [] => []
  | value :: rest => canonicalize value :: canonicalizeList rest

def canonicalizeFields : List (String × Json) → List (String × String)
  | [] => []
  | (name, value) :: rest => (name, canonicalize value) :: canonicalizeFields rest

end

/-! ## Fingerprints and identities -/

inductive FailureIdentity where
  | arguments (toolName : String) (argsHash : UInt64)
  | error (toolName : String) (errorHash : UInt64)
  deriving DecidableEq

namespace FailureIdentity

/-- Identities are ordered by their kind, then their tool, then their hash. -/
def orderKey : FailureIdentity → Bool ×ₗ String ×ₗ ℕ
  | .arguments toolName argsHash => toLex (false, toLex (toolName, argsHash.toNat))
  | .error toolName errorHash => toLex (true, toLex (toolName, errorHash.toNat))

theorem orderKey_injective : Function.Injective orderKey := by
  intro a b h
  cases a <;> cases b <;>
    simp only [orderKey, EmbeddingLike.apply_eq_iff_eq, Prod.mk.injEq, UInt64.toNat_inj,
      true_and, Bool.true_eq_false, Bool.false_eq_true, false_and] at h
  · rw [h.1, h.2]
  · rw [h.1, h.2]

instance : LinearOrder FailureIdentity := LinearOrder.lift' orderKey orderKey_injective

instance instTransCmp : Std.TransCmp (compare : FailureIdentity → FailureIdentity → Ordering) :=
  inferInstance

end FailureIdentity

/-- Fingerprint of one tool-call outcome. -/
structure ToolCallFingerprint where
  toolName : String
  argsHash : UInt64
  failed : Bool
  errorHash : Option UInt64
  errorText : Option String
  arguments : Json
  deriving DecidableEq

namespace ToolCallFingerprint

section Constructors

variable (hash : String → UInt64)

def hashValue (value : Json) : UInt64 := hash (canonicalize value)

def success (toolName : String) (arguments : Json) : ToolCallFingerprint where
  toolName := toolName
  argsHash := hashValue hash arguments
  failed := false
  errorHash := none
  errorText := none
  arguments := arguments

def failure (toolName : String) (arguments : Json) (error : Option String) :
    ToolCallFingerprint :=
  let nonEmptyError := error.filter fun text => text ≠ ""
  { toolName
    argsHash := hashValue hash arguments
    failed := true
    errorHash := nonEmptyError.map hash
    errorText := nonEmptyError
    arguments }

end Constructors

variable (f : ToolCallFingerprint)

def argumentIdentity : FailureIdentity := .arguments f.toolName f.argsHash

def identities : List FailureIdentity :=
  match f.errorHash with
  | some errorHash => [f.argumentIdentity, .error f.toolName errorHash]
  | none => [f.argumentIdentity]

/-- The representative of the fingerprints that are equal to this one: equality of arguments
disregards the order of fields. -/
def normalize : ToolCallFingerprint :=
  { f with arguments := f.arguments.normalize }

/-- What fingerprints are compared by. -/
def sortKey : String ×ₗ String ×ₗ WithBot String ×ₗ Bool :=
  toLex (f.toolName, toLex (canonicalize f.arguments, toLex (f.errorText, f.failed)))

end ToolCallFingerprint

def fingerprintCmp (left right : ToolCallFingerprint) : Ordering :=
  compare left.sortKey right.sortKey

/-! ## The detector -/

structure FailureStreak where
  observations : List ToolCallFingerprint

namespace FailureStreak

def new (observation : ToolCallFingerprint) : FailureStreak where
  observations := [observation]

/-- Adds an observation and drops the oldest ones beyond the window. -/
def push (streak : FailureStreak) (observation : ToolCallFingerprint) (window : ℕ) :
    FailureStreak :=
  let observations := streak.observations ++ [observation]
  { observations := observations.drop (observations.length - window) }

def fills (window : ℕ) (streak : FailureStreak) : Bool := window ≤ streak.observations.length

def normalize (streak : FailureStreak) : FailureStreak where
  observations := streak.observations.map ToolCallFingerprint.normalize

end FailureStreak

inductive InterventionStage where
  | none
  | nudged
  | stripTools
  deriving DecidableEq

/-- The action computed once for a complete round. -/
inductive LoopDetectorAction where
  | none
  | injectNudge
  | stripTools
  deriving DecidableEq

abbrev Streaks := OrderedMap FailureIdentity FailureStreak
abbrev Observations := OrderedMap FailureIdentity ToolCallFingerprint
abbrev FailureIdentities := Std.ExtTreeSet FailureIdentity compare

structure ToolLoopDetector where
  active : Streaks
  window : ℕ
  stripOnSecondFire : Bool
  stage : InterventionStage
  interventionIdentities : FailureIdentities
  interventionEvidence : List ToolCallFingerprint

namespace ToolLoopDetector

def new (window : ℕ) (stripOnSecondFire : Bool) : ToolLoopDetector where
  active := ∅
  window := window
  stripOnSecondFire := stripOnSecondFire
  stage := .none
  interventionIdentities := ∅
  interventionEvidence := []

def reset (d : ToolLoopDetector) : ToolLoopDetector :=
  { d with
    active := ∅
    stage := .none
    interventionIdentities := ∅
    interventionEvidence := [] }

/-- The operations that succeed in a batch. -/
def successfulOperations (outcomes : List ToolCallFingerprint) : List FailureIdentity :=
  (outcomes.filter fun outcome => !outcome.failed).map ToolCallFingerprint.argumentIdentity

/-- Whether an outcome is a failure that no success of the same operation suppresses. -/
def survives (successful : List FailureIdentity) (outcome : ToolCallFingerprint) : Bool :=
  outcome.failed && decide (outcome.argumentIdentity ∉ successful)

def unsuppressed (outcomes : List ToolCallFingerprint) : List ToolCallFingerprint :=
  outcomes.filter (survives (successfulOperations outcomes))

/-- The failures of a round: sorted, and each kept once among equal neighbours. -/
def roundFailures (outcomes : List ToolCallFingerprint) : List ToolCallFingerprint :=
  (sortByKey ToolCallFingerprint.sortKey (unsuppressed outcomes)).destutter
    fun a b => a.normalize ≠ b.normalize

/-- Keeps the least failure seen for each identity. -/
def observe (failure : ToolCallFingerprint) (observations : Observations)
    (identity : FailureIdentity) : Observations :=
  match observations[identity]? with
  | some current =>
    if (fingerprintCmp current failure).isLE then observations
    else observations.insert identity failure
  | none => observations.insert identity failure

def roundObservations (failures : List ToolCallFingerprint) : Observations :=
  failures.foldl (fun observations failure =>
    failure.identities.foldl (observe failure) observations) ∅

/-- The streaks after a round: those that the round does not continue end, and each of its
observations continues a streak or starts one. -/
def updateActive (active : Streaks) (observations : Observations) (window : ℕ) : Streaks :=
  let retained := OrderedMap.filterKeys observations.contains active
  OrderedMap.upsertAll (fun streak observation =>
    match streak with
    | some streak => streak.push observation window
    | none => .new observation) retained observations.toList

/-- Starts an intervention when some streak fills the window. -/
def nudge (d : ToolLoopDetector) : LoopDetectorAction × ToolLoopDetector :=
  match OrderedMap.first? d.active (FailureStreak.fills d.window) with
  | none => (.none, d)
  | some (_, candidateStreak) =>
    (.injectNudge,
      { d with
        interventionIdentities := Std.ExtTreeSet.ofList
          (OrderedMap.keysWhere d.active (FailureStreak.fills d.window)) compare
        interventionEvidence := candidateStreak.observations
        stage := .nudged })

/-- The part of a round that follows the reduction of its batch. -/
def applyRound (d : ToolLoopDetector) (observations : Observations) :
    LoopDetectorAction × ToolLoopDetector :=
  if observations.isEmpty then (.none, d.reset)
  else
    let d := { d with active := updateActive d.active observations d.window }
    match d.stage with
    | .stripTools => (.none, d)
    | .nudged =>
      match d.interventionIdentities.toList.find? fun identity =>
        observations.contains identity with
      | some identity =>
        if d.stripOnSecondFire then
          (.stripTools,
            { d with
              stage := .stripTools
              interventionEvidence :=
                (d.active[identity]?.map FailureStreak.observations).getD
                  d.interventionEvidence })
        else (.none, d)
      | none =>
        -- the failures differ from those of the nudge: a fresh cycle starts
        nudge { d with
          stage := .none
          interventionIdentities := ∅
          interventionEvidence := [] }
    | .none => nudge d

/-- Records all outcomes of one batch and returns at most one action for it. -/
def recordRound (d : ToolLoopDetector) (outcomes : List ToolCallFingerprint) :
    LoopDetectorAction × ToolLoopDetector :=
  if d.window = 0 then (.none, d)
  else d.applyRound (roundObservations (roundFailures outcomes))

/-- Called after the turn without tools: the next round starts with no observations. -/
def clearStripTools (d : ToolLoopDetector) : ToolLoopDetector :=
  if d.stage = .stripTools then d.reset else d

/-- The representative of the detectors that are equal to this one. -/
def normalize (d : ToolLoopDetector) : ToolLoopDetector :=
  { d with
    active := d.active.map fun _ => FailureStreak.normalize
    interventionEvidence := d.interventionEvidence.map ToolCallFingerprint.normalize }

end ToolLoopDetector

end Chelix.Agents
