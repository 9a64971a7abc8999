import Chelix.Sessions.UiHistoryEngine
import Mathlib.Order.Bounds.Basic

/-!
# The prefix that a fork takes

A fork takes the messages below a position and the canonical records that they are bound to, so
both must be cut at one place: no canonical segment may lie across the cut, and nothing below it
may still be produced.
-/

namespace Chelix.Sessions

open Option

open Chelix.Library Chelix.Common List

inductive UiForkBoundaryReason where
  | activeContent
  | interleavedSegment
  deriving DecidableEq

structure UiForkResult where
  forkPoint : ℕ
  sourceEnd : ℕ
  boundaryAdjusted : Bool
  boundaryReasons : List UiForkBoundaryReason

structure UiForkSnapshot where
  result : UiForkResult
  canonicalTail : ℕ
  entries : List UiEntry

section Select

variable (entries : List UiEntry)

/-- Provider content that is not committed or still produced. -/
def unfinishedRecord (entry : UiEntry) : Bool :=
  (match entry.snapshot.content with
    | .record _ => true
    | .error _ => false) && (!entry.snapshot.canonicalCommitted || active entry)

def unfinishedPosition : Option ℕ :=
  ((entries.filter unfinishedRecord).map fun entry => entry.snapshot.position).min?

/-- The end of the canonical records of the messages below a position. -/
def tailBefore (position : ℕ) : ℕ :=
  (((entries.filter fun entry => entry.snapshot.position < position).filterMap fun entry =>
    entry.canonical.map UiCanonicalBinding.stop).max?).getD 0

/-- The first record before that end of a message from the position on. -/
def crossingStart (position : ℕ) : Option ℕ :=
  (((entries.filter fun entry => position ≤ entry.snapshot.position).filterMap fun entry =>
    entry.canonical.map UiCanonicalBinding.start).filter fun start =>
      start < tailBefore entries position).min?

/-- The first message below the position whose records reach beyond the crossing. -/
def owningPosition (position crossing : ℕ) : Option ℕ :=
  ((entries.filter fun entry => entry.snapshot.position < position ∧
    entry.canonical.any fun binding => crossing < binding.stop).map
      fun entry => entry.snapshot.position).min?

variable {entries}

theorem owningPosition_spec {position crossing owner : ℕ}
    (h : owningPosition entries position crossing = some owner) :
    owner < position ∧ ∃ entry ∈ entries, entry.snapshot.position = owner ∧
      ∃ binding, entry.canonical = some binding ∧ crossing < binding.stop := by
  obtain ⟨entry, hmem, rfl⟩ := mem_map.mp (List.min?_mem h)
  obtain ⟨hentry, hbelow⟩ := mem_filter.mp hmem
  obtain ⟨hlt, hreach⟩ := of_decide_eq_true hbelow
  obtain ⟨binding, hbinding, hstop⟩ := (any_eq_true _ _).mp hreach
  exact ⟨hlt, entry, hentry, rfl, binding, hbinding, of_decide_eq_true hstop⟩

variable (entries)

/-- Moves the position back until no canonical segment lies across it: the position, the end of the
canonical records below it, and why it was moved. -/
def settle (requested : Bool) (position : ℕ) (reasons : List UiForkBoundaryReason) :
    Except Error (ℕ × ℕ × List UiForkBoundaryReason) :=
  match crossingStart entries position with
  | none => .ok (position, tailBefore entries position, reasons)
  | some crossing =>
    if requested then .error (.message "fork point splits an interleaved canonical segment")
    else
      match howner : owningPosition entries position crossing with
      | none => .error (.message "interleaved fork boundary has no owning snapshot")
      | some owner =>
        settle requested owner
          (if .interleavedSegment ∈ reasons then reasons else reasons ++ [.interleavedSegment])
termination_by position
decreasing_by exact (owningPosition_spec howner).1

def selectPrefix (requested : Option ℕ) (sourceEnd : ℕ) : Except Error UiForkSnapshot := do
  let position := requested.getD sourceEnd
  if position > sourceEnd then throw (.message "fork point is outside UI history")
  let unfinished := (unfinishedPosition entries).filter fun unfinished => unfinished < position
  if unfinished.isSome && requested.isSome then
    throw (.message "fork prefix contains uncommitted provider content")
  let reasons := if unfinished.isSome then [.activeContent] else []
  let (position, canonicalTail, reasons) ←
    settle entries requested.isSome (unfinished.getD position) reasons
  if requested = none ∧ sourceEnd > 0 ∧ position = 0 then
    throw (.message "no confirmed UI history prefix is available for default fork")
  if position ≥ 2 ^ 32 then
    throw (.message "out of range integral type conversion attempted")
  return {
    result :=
      { forkPoint := position
        sourceEnd
        boundaryAdjusted := requested.isNone && position < sourceEnd
        boundaryReasons := reasons }
    canonicalTail
    entries := entries.filter fun entry => entry.snapshot.position < position }

end Select

/-! ## Valid cuts -/

/-- The canonical records of the messages below a position end before those of the others start. -/
def Apart (entries : List UiEntry) (p : ℕ) : Prop :=
  ∀ entry ∈ entries, entry.snapshot.position < p → ∀ binding, entry.canonical = some binding →
    ∀ other ∈ entries, p ≤ other.snapshot.position → ∀ binding', other.canonical = some binding' →
      binding.stop ≤ binding'.start

/-- A position at which a history can be cut. -/
structure ValidCut (entries : List UiEntry) (p : ℕ) : Prop where
  finished : ∀ entry ∈ entries, entry.snapshot.position < p → unfinishedRecord entry = false
  apart : Apart entries p

/-- The greatest end of the canonical records of the messages below a position, or zero. -/
structure TailAt (entries : List UiEntry) (p tail : ℕ) : Prop where
  upper : ∀ entry ∈ entries, entry.snapshot.position < p → ∀ binding,
    entry.canonical = some binding → binding.stop ≤ tail
  attained : tail = 0 ∨ ∃ entry ∈ entries, entry.snapshot.position < p ∧ ∃ binding,
    entry.canonical = some binding ∧ binding.stop = tail

/-- A fork at a position takes the messages below it and the records up to the end of theirs. -/
structure TakesPrefix (entries : List UiEntry) (p : ℕ) (snapshot : UiForkSnapshot) : Prop where
  forkPoint : snapshot.result.forkPoint = p
  tail : TailAt entries p snapshot.canonicalTail
  entries : snapshot.entries = entries.filter fun entry => entry.snapshot.position < p

section Cuts

variable {entries : List UiEntry} {position crossing : ℕ}

theorem tailAt_tailBefore (entries : List UiEntry) (position : ℕ) :
    TailAt entries position (tailBefore entries position) := by
  have hmem : ∀ stop, stop ∈ (entries.filter fun entry =>
      entry.snapshot.position < position).filterMap (fun entry =>
        entry.canonical.map UiCanonicalBinding.stop) ↔
      ∃ entry ∈ entries, entry.snapshot.position < position ∧ ∃ binding,
        entry.canonical = some binding ∧ binding.stop = stop := by
    intro stop
    simp only [mem_filterMap, mem_filter, decide_eq_true_eq, map_eq_some_iff,
      and_assoc]
  unfold tailBefore
  cases hmax : List.max? (List.filterMap (fun entry : UiEntry =>
      entry.canonical.map UiCanonicalBinding.stop) _) with
  | none =>
    rw [List.max?_eq_none_iff] at hmax
    refine ⟨fun entry hentry hlt binding hbinding => ?_, .inl rfl⟩
    have hstop := (hmem binding.stop).mpr ⟨entry, hentry, hlt, binding, hbinding, rfl⟩
    rw [hmax] at hstop
    cases hstop
  | some tail =>
    refine ⟨fun entry hentry hlt binding hbinding => ?_, .inr ((hmem tail).mp (List.max?_mem hmax))⟩
    have hstop := (hmem binding.stop).mpr ⟨entry, hentry, hlt, binding, hbinding, rfl⟩
    exact (List.max?_le_iff hmax).mp le_rfl _ hstop

theorem mem_crossings {start : ℕ} : start ∈ ((entries.filter fun entry =>
    position ≤ entry.snapshot.position).filterMap fun entry =>
      entry.canonical.map UiCanonicalBinding.start).filter (fun start =>
        start < tailBefore entries position) ↔
    (∃ entry ∈ entries, position ≤ entry.snapshot.position ∧ ∃ binding,
      entry.canonical = some binding ∧ binding.start = start) ∧
        start < tailBefore entries position := by
  simp only [mem_filterMap, mem_filter, decide_eq_true_eq, map_eq_some_iff,
    and_assoc]

theorem crossingStart_eq_none_iff :
    crossingStart entries position = none ↔ Apart entries position := by
  have htail := tailAt_tailBefore entries position
  rw [crossingStart, List.min?_eq_none_iff, eq_nil_iff_forall_not_mem]
  constructor
  · intro hnone entry hentry hlt binding hbinding other hother hle binding' hbinding'
    by_contra hgt
    have hstop := htail.upper entry hentry hlt binding hbinding
    exact hnone binding'.start (mem_crossings.mpr
      ⟨⟨other, hother, hle, binding', hbinding', rfl⟩, by omega⟩)
  · intro hapart start hstart
    obtain ⟨⟨other, hother, hle, binding', hbinding', rfl⟩, hlt⟩ := mem_crossings.mp hstart
    rcases htail.attained with hzero | ⟨entry, hentry, hbelow, binding, hbinding, hstop⟩
    · omega
    · have hle' := hapart entry hentry hbelow binding hbinding other hother hle binding' hbinding'
      omega

theorem exists_owner (h : crossingStart entries position = some crossing) :
    ∃ owner, owningPosition entries position crossing = some owner ∧
      ∀ q ≤ position, Apart entries q → q ≤ owner := by
  obtain ⟨⟨other, hother, hle, binding', hbinding', rfl⟩, hlt⟩ :=
    mem_crossings.mp (List.min?_mem h)
  cases howner : owningPosition entries position binding'.start with
  | none =>
    rcases (tailAt_tailBefore entries position).attained with
      hzero | ⟨entry, hentry, hbelow, binding, hbinding, hstop⟩
    · omega
    · rw [owningPosition, List.min?_eq_none_iff, map_eq_nil_iff] at howner
      have hmem : entry ∈ entries.filter fun entry => entry.snapshot.position < position ∧
          entry.canonical.any fun binding => binding'.start < binding.stop := by
        refine mem_filter.mpr ⟨hentry, decide_eq_true ⟨hbelow, ?_⟩⟩
        rw [hbinding, any_some, decide_eq_true_eq]
        omega
      rw [howner] at hmem
      cases hmem
  | some owner =>
    refine ⟨owner, rfl, fun q hq hapart => ?_⟩
    obtain ⟨-, entry, hentry, hposition, binding, hbinding, hreach⟩ := owningPosition_spec howner
    by_contra hgt
    have hle' := hapart entry hentry (by omega) binding hbinding other hother (by omega) binding'
      hbinding'
    omega

/-- **Moving back skips no cut**: where nothing was requested, the position is moved to the greatest
one at or below it at which the records are apart. -/
theorem exists_settle (entries : List UiEntry) (position : ℕ)
    (reasons : List UiForkBoundaryReason) : ∃ p reasons',
    settle entries false position reasons = .ok (p, tailBefore entries p, reasons') ∧
      IsGreatest {q | q ≤ position ∧ Apart entries q} p := by
  induction position using Nat.strong_induction_on generalizing reasons with
  | _ position ih =>
    rw [settle]
    cases hcrossing : crossingStart entries position with
    | none =>
      have hapart := crossingStart_eq_none_iff.mp hcrossing
      exact ⟨position, reasons, rfl, ⟨le_rfl, hapart⟩, fun q hq => hq.1⟩
    | some crossing =>
      obtain ⟨owner, howner, hskips⟩ := exists_owner hcrossing
      obtain ⟨hlt, -⟩ := owningPosition_spec howner
      dsimp only
      rw [if_neg Bool.false_ne_true]
      split
      · rename_i hnone
        rw [howner] at hnone
        cases hnone
      · rename_i owner' howner'
        rw [howner] at howner'
        obtain rfl := Option.some.inj howner'
        obtain ⟨p, reasons', hsettle, ⟨hle, hapart⟩, hgreatest⟩ := ih owner hlt _
        refine ⟨p, reasons', hsettle, ⟨by omega, hapart⟩, fun q hq => ?_⟩
        exact hgreatest ⟨hskips q hq.1 hq.2, hq.2⟩

theorem settle_requested (entries : List UiEntry) (position : ℕ)
    (reasons : List UiForkBoundaryReason) :
    Apart entries position ∧
        settle entries true position reasons = .ok (position, tailBefore entries position, reasons) ∨
      ¬Apart entries position ∧ ∃ e, settle entries true position reasons = .error e := by
  rw [settle]
  cases hcrossing : crossingStart entries position with
  | none => exact .inl ⟨crossingStart_eq_none_iff.mp hcrossing, rfl⟩
  | some crossing =>
    refine .inr ⟨fun hapart => ?_, _, rfl⟩
    rw [crossingStart_eq_none_iff.mpr hapart] at hcrossing
    cases hcrossing

/-- Nothing below a position is unfinished exactly if it does not exceed the first unfinished
one. -/
theorem finished_iff {p : ℕ} :
    (∀ entry ∈ entries, entry.snapshot.position < p → unfinishedRecord entry = false) ↔
      ∀ unfinished, unfinishedPosition entries = some unfinished → p ≤ unfinished := by
  constructor
  · intro hfinished unfinished hunfinished
    obtain ⟨entry, hmem, rfl⟩ := mem_map.mp (List.min?_mem hunfinished)
    obtain ⟨hentry, htrue⟩ := mem_filter.mp hmem
    by_contra hlt
    rw [hfinished entry hentry (by omega)] at htrue
    cases htrue
  · intro hle entry hentry hlt
    by_contra hne
    have hmem : entry.snapshot.position ∈ (entries.filter unfinishedRecord).map
        fun entry => entry.snapshot.position :=
      mem_map.mpr ⟨entry, mem_filter.mpr ⟨hentry, Bool.not_eq_false _ ▸ hne⟩, rfl⟩
    cases hmin : unfinishedPosition entries with
    | none =>
      rw [unfinishedPosition, List.min?_eq_none_iff] at hmin
      rw [hmin] at hmem
      cases hmem
    | some unfinished =>
      have hleast := (le_min?_iff hmin).mp le_rfl _ hmem
      have hp := hle unfinished hmin
      omega

/-! ## The selected prefix -/

theorem validCut_iff {sourceEnd p : ℕ} :
    p ≤ sourceEnd ∧ ValidCut entries p ↔
      p ≤ ((unfinishedPosition entries).filter fun u => u < sourceEnd).getD sourceEnd ∧
        Apart entries p := by
  have hbound : p ≤ ((unfinishedPosition entries).filter fun u => u < sourceEnd).getD sourceEnd ↔
      p ≤ sourceEnd ∧ ∀ u, unfinishedPosition entries = some u → p ≤ u := by
    cases unfinishedPosition entries with
    | none => simp
    | some u =>
      by_cases hu : u < sourceEnd
      · rw [filter_some, if_pos (decide_eq_true hu), getD_some]
        constructor
        · rintro hp
          refine ⟨by omega, ?_⟩
          rintro _ ⟨⟩
          exact hp
        · rintro ⟨-, hp⟩
          exact hp u rfl
      · rw [filter_some, if_neg (by simpa using hu), getD_none]
        refine ⟨fun hp => ⟨hp, ?_⟩, And.left⟩
        rintro _ ⟨⟩
        omega
  rw [hbound, ← finished_iff]
  exact ⟨fun ⟨hp, hcut⟩ => ⟨⟨hp, hcut.finished⟩, hcut.apart⟩,
    fun ⟨⟨hp, hfinished⟩, hapart⟩ => ⟨hp, hfinished, hapart⟩⟩

theorem selectPrefix_default (entries : List UiEntry) (sourceEnd : ℕ) :
    ∃ p, IsGreatest {q | q ≤ sourceEnd ∧ ValidCut entries q} p ∧
      ((0 < sourceEnd ∧ p = 0 ∨ 2 ^ 32 ≤ p) ∧
          (∃ e, selectPrefix entries none sourceEnd = .error e) ∨
        ¬(0 < sourceEnd ∧ p = 0 ∨ 2 ^ 32 ≤ p) ∧
          ∃ snapshot, selectPrefix entries none sourceEnd = .ok snapshot ∧
            TakesPrefix entries p snapshot) := by
  obtain ⟨p, reasons, hsettle, hgreatest⟩ := exists_settle entries
    (((unfinishedPosition entries).filter fun u => u < sourceEnd).getD sourceEnd)
    (if ((unfinishedPosition entries).filter fun u => u < sourceEnd).isSome then [.activeContent]
      else [])
  have hcuts : {q | q ≤ sourceEnd ∧ ValidCut entries q} =
      {q | q ≤ ((unfinishedPosition entries).filter fun u => u < sourceEnd).getD sourceEnd ∧
        Apart entries q} := Set.ext fun q => validCut_iff
  refine ⟨p, hcuts ▸ hgreatest, ?_⟩
  have hselect : selectPrefix entries none sourceEnd =
      if 0 < sourceEnd ∧ p = 0 then
        .error (.message "no confirmed UI history prefix is available for default fork")
      else if p ≥ 2 ^ 32 then
        .error (.message "out of range integral type conversion attempted")
      else .ok
        { result :=
            { forkPoint := p
              sourceEnd
              boundaryAdjusted := p < sourceEnd
              boundaryReasons := reasons }
          canonicalTail := tailBefore entries p
          entries := entries.filter fun entry => entry.snapshot.position < p } := by
    unfold selectPrefix
    dsimp only
    rw [getD_none, if_neg (lt_irrefl sourceEnd), isSome_none, Bool.and_false,
      if_neg Bool.false_ne_true, hsettle]
    by_cases hzero : 0 < sourceEnd ∧ p = 0
    · rw [if_pos hzero]
      exact if_pos ⟨rfl, hzero⟩
    · rw [if_neg hzero]
      refine (if_neg fun h => hzero h.2).trans ?_
      by_cases hlarge : p ≥ 2 ^ 32
      · rw [if_pos hlarge]
        exact (if_pos hlarge).symm
      · rw [if_neg hlarge]
        refine Eq.trans ?_ (if_neg hlarge).symm
        rw [isNone_none, Bool.true_and]
        rfl
  rw [hselect]
  by_cases hzero : 0 < sourceEnd ∧ p = 0
  · rw [if_pos hzero]
    exact .inl ⟨.inl hzero, _, rfl⟩
  · rw [if_neg hzero]
    by_cases hlarge : p ≥ 2 ^ 32
    · rw [if_pos hlarge]
      exact .inl ⟨.inr hlarge, _, rfl⟩
    · rw [if_neg hlarge]
      exact .inr ⟨fun h => h.elim hzero hlarge, _, rfl, rfl, tailAt_tailBefore entries p, rfl⟩

theorem selectPrefix_requested (entries : List UiEntry) (p sourceEnd : ℕ) :
    (p ≤ sourceEnd ∧ ValidCut entries p ∧ p < 2 ^ 32) ∧
        (∃ snapshot, selectPrefix entries (some p) sourceEnd = .ok snapshot ∧
          TakesPrefix entries p snapshot) ∨
      ¬(p ≤ sourceEnd ∧ ValidCut entries p ∧ p < 2 ^ 32) ∧
        ∃ e, selectPrefix entries (some p) sourceEnd = .error e := by
  unfold selectPrefix
  dsimp only
  rw [getD_some, isSome_some, Bool.and_true]
  by_cases hend : p > sourceEnd
  · rw [if_pos hend]
    exact .inr ⟨fun h => by omega, _, rfl⟩
  rw [if_neg hend]
  cases hunfinished : (unfinishedPosition entries).filter fun u => u < p with
  | some u =>
    refine .inr ⟨fun h => ?_, _, rfl⟩
    obtain ⟨hmin, hlt⟩ := filter_eq_some_iff.mp hunfinished
    have hle := finished_iff.mp h.2.1.finished u hmin
    have hlt' := of_decide_eq_true hlt
    omega
  | none =>
    have hfinished : ∀ u, unfinishedPosition entries = some u → p ≤ u := by
      intro u hu
      rw [hu, filter_some] at hunfinished
      by_contra hlt
      rw [if_pos (decide_eq_true (by omega))] at hunfinished
      cases hunfinished
    rw [getD_none, isSome_none, if_neg Bool.false_ne_true]
    obtain ⟨hapart, hsettle⟩ | ⟨hcross, e, hsettle⟩ := settle_requested entries p []
    · rw [if_neg Bool.false_ne_true, hsettle]
      by_cases hlarge : p ≥ 2 ^ 32
      · refine .inr ⟨fun h => by omega, .message "out of range integral type conversion attempted", ?_⟩
        exact if_pos hlarge
      · refine .inl ⟨⟨by omega, ⟨finished_iff.mpr hfinished, hapart⟩, by omega⟩, ?_⟩
        exact ⟨_, if_neg hlarge, rfl, tailAt_tailBefore entries p, rfl⟩
    · rw [if_neg Bool.false_ne_true, hsettle]
      exact .inr ⟨fun h => hcross h.2.1.apart, e, rfl⟩

/-- **A fork is cut at a valid cut**, by default at the greatest one: it fails only where that is
zero for a history that is not empty, or does not fit its column.  A requested position is taken
exactly if it is a valid cut of the history and fits its column. -/
theorem select_prefix_cuts (entries : List UiEntry) (sourceEnd : ℕ) :
    (∃ p, IsGreatest {q | q ≤ sourceEnd ∧ ValidCut entries q} p ∧
      ((∃ e, selectPrefix entries none sourceEnd = .error e) ↔
        0 < sourceEnd ∧ p = 0 ∨ 2 ^ 32 ≤ p) ∧
      ∀ snapshot, selectPrefix entries none sourceEnd = .ok snapshot →
        TakesPrefix entries p snapshot) ∧
    ∀ p, ((∃ snapshot, selectPrefix entries (some p) sourceEnd = .ok snapshot) ↔
        p ≤ sourceEnd ∧ ValidCut entries p ∧ p < 2 ^ 32) ∧
      ∀ snapshot, selectPrefix entries (some p) sourceEnd = .ok snapshot →
        TakesPrefix entries p snapshot := by
  constructor
  · obtain ⟨p, hgreatest, ⟨hwhen, e, herror⟩ | ⟨hwhen, snapshot, hok, htakes⟩⟩ :=
      selectPrefix_default entries sourceEnd
    · refine ⟨p, hgreatest, ⟨fun _ => hwhen, fun _ => ⟨e, herror⟩⟩, fun snapshot hok => ?_⟩
      rw [herror] at hok
      cases hok
    · refine ⟨p, hgreatest, ⟨?_, fun h => absurd h hwhen⟩, fun other hother => ?_⟩
      · rintro ⟨e, herror⟩
        rw [hok] at herror
        cases herror
      · rw [hok] at hother
        obtain rfl := Except.ok.inj hother
        exact htakes
  · intro p
    obtain ⟨hwhen, snapshot, hok, htakes⟩ | ⟨hwhen, e, herror⟩ :=
      selectPrefix_requested entries p sourceEnd
    · refine ⟨⟨fun _ => hwhen, fun _ => ⟨snapshot, hok⟩⟩, fun other hother => ?_⟩
      rw [hok] at hother
      obtain rfl := Except.ok.inj hother
      exact htakes
    · refine ⟨⟨?_, fun h => absurd h hwhen⟩, fun snapshot hok => ?_⟩
      · rintro ⟨snapshot, hok⟩
        rw [herror] at hok
        cases hok
      · rw [herror] at hok
        cases hok

end Cuts

end Chelix.Sessions
