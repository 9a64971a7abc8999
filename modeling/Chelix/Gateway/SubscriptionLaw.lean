import Chelix.Gateway.HistorySubscription

/-!
# A subscriber in step with the session

Each frame is made inside a section of the session, so it carries the generation and the revision
that the session has at that moment; generations do not come back, and within one the revision does
not go back.  The loop rests only when it has seen the last published revision.  A range around a
message is the one thing that a truncation can break.

* **`history_in_step`**: the frames of every run whose steps find their target.
-/

namespace Chelix.Gateway

open Chelix.Library Chelix.Sessions List

/-! ## Ranges that can be read -/

/-- The target is there if the range is around one. -/
def Targeted (range : UiHistoryRange) (target : Option AroundTarget) : Prop :=
  target = none → ∀ messageId, range ≠ .around messageId

/-- The range has bounds, given the position of its target if it has one. -/
def Readable (range : UiHistoryRange) : Prop :=
  ∀ target, Targeted range target →
    ∃ bounds, range.bounds (target.map AroundTarget.position) = .ok bounds ∧
      bounds.columns = .ok ()

theorem readable_latest : Readable .latest :=
  fun _ _ => ⟨_, rfl, rfl⟩

/-- The bounds depend on the target only where the range is around one. -/
theorem readable_of_ok {range : UiHistoryRange} {target : Option ℕ} {bounds : PageBounds} {u : Unit}
    (hbounds : range.bounds target = .ok bounds) (hcolumns : bounds.columns = .ok u) :
    Readable range := by
  cases range with
  | around messageId =>
    intro target' htarget'
    cases target' with
    | none => exact absurd rfl (htarget' rfl messageId)
    | some target => exact ⟨_, rfl, rfl⟩
  | latest | before position | after position | window start stop =>
    exact fun _ _ => ⟨bounds, hbounds, hcolumns⟩

/-! ## Frames -/

/-- A batch starts at the frame before it. -/
def Follows (frame : HistoryFrame) : HistoryFrame → Prop
  | .update batch => batch.generation = frame.generation ∧ batch.fromRevision = frame.revision
  | .snapshot _ => True

/-- Within a generation the revision does not go back. -/
def NotBefore (frame later : HistoryFrame) : Prop :=
  frame.generation = later.generation → frame.revision ≤ later.revision

/-- The loop has sent a frame wherever it compares with one, and only the first page fails. -/
def DeliveryPhase.WellFormed (d : Delivery) : DeliveryPhase → Prop
  | .waiting => d.frames ≠ []
  | .reserving => d.frames ≠ []
  | .updating _ => d.frames ≠ []
  | .updateRows _ _ => d.frames ≠ []
  | .updateMerge _ _ _ => d.frames ≠ []
  | .pageLook target => Targeted d.selectedRange target
  | .pageRows target _ _ _ => Targeted d.selectedRange target ∧ Readable d.selectedRange
  | .pageMerge target _ _ _ _ => Targeted d.selectedRange target ∧ Readable d.selectedRange
  | .failed _ => d.frames = []
  | _ => True

/-- The frames fit the session and each other. -/
structure InStep (r : HistoryRun) : Prop where
  failure : r.session.state.failure = none
  published : r.session.published = r.session.state.current
  known : r.session.state.generation ∈ r.session.generations
  seen : r.delivery.seen ≤ r.session.version
  framesKnown : ∀ frame ∈ r.delivery.frames, frame.generation ∈ r.session.generations
  bounded : ∀ frame ∈ r.delivery.frames, frame.generation = r.session.state.generation →
    frame.revision ≤ r.session.state.revision
  ordered : r.delivery.frames.Pairwise NotBefore
  linked : r.delivery.frames.IsChain Follows
  last : ∀ frame ∈ r.delivery.frames.getLast?,
    frame.generation = r.delivery.generation ∧ frame.revision = r.delivery.revision
  rest : r.delivery.phase = .waiting → r.session.version = r.delivery.seen →
    r.delivery.generation = r.session.state.generation ∧
      r.delivery.revision = r.session.state.revision
  readable : r.delivery.frames ≠ [] → Readable r.delivery.selectedRange
  wellFormed : r.delivery.phase.WellFormed r.delivery

/-- Where the loop reads a page around a message after the first frame, it finds the message, and
the generation does not change while it does. -/
def TargetStays (r : HistoryRun) : HistoryEvent → Prop
  | .change => True
  | .deliver =>
    match r.delivery.phase with
    | .entryMerge messageId _ generation committed stored => r.delivery.frames ≠ [] →
        r.session.state.generation = generation ∧
        (r.session.state.committedRevision = committed →
          r.session.state.entries[messageId]?.or stored ≠ none)
    | .pageLook (some target) => r.delivery.frames ≠ [] →
        r.session.state.generation = target.generation
    | _ => True

/-- A batch has the generation and the revision of the state, and starts where it was asked to. -/
theorem assembleUpdates_eq_some {s : UiState} {revision limit : ℕ} {rows : List UiEntry}
    {batch : UiHistoryBatch} (h : assembleUpdates s revision limit rows = some batch) :
    batch.generation = s.generation ∧ batch.fromRevision = revision ∧
      batch.revision = s.revision := by
  rw [assembleUpdates] at h
  split at h
  · exact nomatch h
  · obtain rfl := Option.some.inj h
    exact ⟨rfl, rfl, rfl⟩

namespace InStep

variable {r : HistoryRun}

theorem subscribe {s : HistorySession} (hfailure : s.state.failure = none)
    (hpublished : s.published = s.state.current) (hknown : s.state.generation ∈ s.generations)
    (range : UiHistoryRange) (limit : ℕ) : InStep ⟨s, .subscribe s.version range limit⟩ where
  failure := hfailure
  published := hpublished
  known := hknown
  seen := le_rfl
  framesKnown _ h := absurd h not_mem_nil
  bounded _ h := absurd h not_mem_nil
  ordered := .nil
  linked := .nil
  last _ h := nomatch h
  rest h := nomatch h
  readable h := absurd rfl h
  wellFormed := trivial

theorem change (h : InStep r) {s : HistorySession} (heffect : Effect r.session s) :
    InStep { r with session := s } := by
  cases heffect with
  | quiet hcurrent hpublished hversion hgenerations =>
    have hgeneration : s.state.generation = r.session.state.generation :=
      congrArg UiHistoryRevision.generation hcurrent
    have hrevision : s.state.revision = r.session.state.revision :=
      congrArg UiHistoryRevision.revision hcurrent
    have hfailure : s.state.failure = r.session.state.failure :=
      congrArg UiHistoryRevision.failure hcurrent
    exact { h with
      failure := hfailure.trans h.failure
      published := hpublished.trans (h.published.trans hcurrent.symm)
      known := by rw [hgeneration, hgenerations]; exact h.known
      seen := hversion.symm ▸ h.seen
      framesKnown := hgenerations.symm ▸ h.framesKnown
      bounded := by rw [hgeneration, hrevision]; exact h.bounded
      rest := by rw [hgeneration, hrevision, hversion]; exact h.rest }
  | grown hgrows hpublished hversion hgenerations =>
    exact { h with
      failure := hgrows.failure.trans h.failure
      published := hpublished
      known := by rw [hgrows.generation, hgenerations]; exact h.known
      seen := by rw [hversion]; exact h.seen.trans (Nat.le_succ _)
      framesKnown := hgenerations.symm ▸ h.framesKnown
      bounded := fun frame hframe hsame =>
        (h.bounded frame hframe (hsame.trans hgrows.generation)).trans hgrows.revision
      rest := fun _ hseen => by
        have hle := h.seen
        have hnext : r.session.version + 1 = r.delivery.seen := hversion.symm.trans hseen
        omega }
  | renewed hnew hfailure hpublished hversion hgenerations =>
    exact { h with
      failure := hfailure
      published := hpublished
      known := by rw [hgenerations]; exact mem_cons_self
      seen := by rw [hversion]; exact h.seen.trans (Nat.le_succ _)
      framesKnown := fun frame hframe => by
        rw [hgenerations]
        exact mem_cons_of_mem _ (h.framesKnown frame hframe)
      bounded := fun frame hframe hsame => absurd (hsame ▸ h.framesKnown frame hframe) hnew
      rest := fun _ hseen => by
        have hle := h.seen
        have hnext : r.session.version + 1 = r.delivery.seen := hversion.symm.trans hseen
        omega }

theorem go (h : InStep r) {phase : DeliveryPhase} (hwaiting : phase ≠ .waiting)
    (hphase : phase.WellFormed r.delivery) :
    InStep { r with delivery := { r.delivery with phase } } where
  __ := h
  rest hrest := absurd hrest hwaiting
  wellFormed := hphase

theorem check_eq (h : InStep r) (next : Delivery) : r.delivery.check r.session next = next := by
  rw [Delivery.check, h.failure]

theorem reread (h : InStep r) (current : UiHistoryRevision) :
    InStep { r with delivery := r.delivery.reread current } where
  __ := h
  rest hrest := nomatch hrest
  readable hframes := by
    show Readable (if current.generation ≠ r.delivery.generation then .latest
      else r.delivery.selectedRange)
    split
    · exact readable_latest
    · exact h.readable hframes
  wellFormed := trivial

/-- The last frame, while the generation is still its own, is not ahead of the session. -/
theorem revision_le (h : InStep r) (hframes : r.delivery.frames ≠ [])
    (hsame : r.delivery.generation = r.session.state.generation) :
    r.delivery.revision ≤ r.session.state.revision := by
  obtain ⟨frame, hlast⟩ := Option.ne_none_iff_exists'.mp (mt List.getLast?_eq_none_iff.mp hframes)
  obtain ⟨hgeneration, hrevision⟩ := h.last frame hlast
  rw [← hrevision]
  exact h.bounded frame (mem_of_getLast? hlast) (hgeneration.trans hsame)

theorem borrow (h : InStep r) (hframes : r.delivery.frames ≠ []) :
    InStep { r with delivery := r.delivery.borrow r.session } := by
  have hseen : InStep { r with delivery := { r.delivery with
      seen := r.session.version, phase := .reserving } } := { h with
    seen := le_rfl
    rest := fun hrest => nomatch hrest
    wellFormed := hframes }
  have hfailure : r.session.published.failure = none := by
    rw [h.published]
    exact h.failure
  rw [Delivery.borrow, hfailure]
  dsimp only
  split
  · rename_i hcurrent
    rw [h.published] at hcurrent
    obtain ⟨hgeneration, hrevision⟩ := hcurrent
    exact { h with
      seen := le_rfl
      rest := fun _ _ =>
        ⟨hgeneration.symm, le_antisymm (h.revision_le hframes hgeneration.symm) hrevision⟩
      wellFormed := hframes }
  · exact hseen.go nofun hframes

theorem send (h : InStep r) (frame : HistoryFrame) {d : Delivery}
    (hgeneration : frame.generation = r.session.state.generation)
    (hrevision : frame.revision = r.session.state.revision)
    (hfollows : ∀ last ∈ r.delivery.frames.getLast?, Follows last frame)
    (hreadable : Readable r.delivery.selectedRange)
    (hd : d = { r.delivery with
      generation := frame.generation
      revision := frame.revision
      frames := r.delivery.frames ++ [frame]
      phase := .waiting }) : InStep { r with delivery := d } := by
  subst hd
  exact { h with
    framesKnown := fun other hother => by
      rcases mem_append.mp hother with hold | hnew
      · exact h.framesKnown other hold
      · rw [mem_singleton.mp hnew, hgeneration]
        exact h.known
    bounded := fun other hother hsame => by
      rcases mem_append.mp hother with hold | hnew
      · exact h.bounded other hold hsame
      · rw [mem_singleton.mp hnew]
        exact hrevision.le
    ordered := by
      refine pairwise_append.mpr ⟨h.ordered, pairwise_singleton .., ?_⟩
      intro other hother later hlater hsame
      rw [mem_singleton.mp hlater] at hsame ⊢
      rw [hrevision]
      exact h.bounded other hother (hsame.trans hgeneration)
    linked := by
      refine h.linked.append (.singleton frame) ?_
      intro last hlast first hfirst
      obtain rfl : frame = first := Option.some.inj hfirst
      exact hfollows last hlast
    last := fun last hlast => by
      rw [List.getLast?_append_of_ne_nil _ (cons_ne_nil _ _)] at hlast
      obtain rfl : frame = last := Option.some.inj hlast
      exact ⟨rfl, rfl⟩
    rest := fun _ _ => ⟨hgeneration, hrevision⟩
    readable := fun _ => hreadable
    wellFormed := append_ne_nil_of_right_ne_nil _ (cons_ne_nil _ _) }

theorem fail (h : InStep r) {error : Error} (hframes : r.delivery.frames = []) :
    InStep { r with delivery := r.delivery.fail error } :=
  h.go nofun hframes

theorem sendBatch (h : InStep r) {rows : List UiEntry} {batch : UiHistoryBatch}
    (hsame : r.session.state.generation = r.delivery.generation) (hframes : r.delivery.frames ≠ [])
    (hbatch : assembleUpdates r.session.state r.delivery.revision r.delivery.limit rows =
      some batch) : InStep { r with delivery := r.delivery.sendBatch batch } := by
  obtain ⟨hgeneration, hfrom, hrevision⟩ := assembleUpdates_eq_some hbatch
  refine h.send (.update batch) hgeneration hrevision ?_ (h.readable hframes) ?_
  · intro last hlast
    obtain ⟨hlastGeneration, hlastRevision⟩ := h.last last hlast
    exact ⟨(hgeneration.trans hsame).trans hlastGeneration.symm, hfrom.trans hlastRevision.symm⟩
  · rw [Delivery.sendBatch, ← hsame, ← hgeneration]
    rfl

theorem pageLook (h : InStep r) {target : Option AroundTarget}
    (htargeted : Targeted r.delivery.selectedRange target)
    (hstays : ∀ found, target = some found → r.delivery.frames ≠ [] →
      r.session.state.generation = found.generation) :
    InStep { r with delivery := r.delivery.pageLook r.session target } := by
  rw [Delivery.pageLook, h.check_eq]
  split
  · rename_i hgeneration
    obtain ⟨found, rfl⟩ : ∃ found, target = some found := by
      cases target with
      | none => simp at hgeneration
      | some found => exact ⟨found, rfl⟩
    refine h.fail (by_contra fun hframes => ?_)
    simp [hstays found rfl hframes] at hgeneration
  · by_cases hframes : r.delivery.frames = []
    · cases hbounds : r.delivery.selectedRange.bounds (target.map AroundTarget.position) with
      | error error => exact h.fail hframes
      | ok bounds =>
        dsimp only
        cases hcolumns : bounds.columns with
        | error error => exact h.fail hframes
        | ok u => exact h.go nofun ⟨htargeted, readable_of_ok hbounds hcolumns⟩
    · have hreadable := h.readable hframes
      obtain ⟨bounds, hbounds, hcolumns⟩ := hreadable target htargeted
      rw [hbounds]
      dsimp only
      rw [hcolumns]
      exact h.go nofun ⟨htargeted, hreadable⟩

theorem deliver (h : InStep r) (hstays : TargetStays r .deliver) {d : Delivery}
    (hnext : r.delivery.next r.session = some d) : InStep { r with delivery := d } := by
  have hwell := h.wellFormed
  rw [TargetStays] at hstays
  rw [Delivery.next] at hnext
  generalize hphase : r.delivery.phase = phase at hnext hwell hstays
  cases phase with
  | waiting =>
    dsimp only at hnext
    split at hnext
    · exact nomatch hnext
    · obtain rfl := Option.some.inj hnext
      exact h.go nofun hwell
  | reserving =>
    obtain rfl := Option.some.inj hnext
    exact h.borrow hwell
  | updating current =>
    obtain rfl := Option.some.inj hnext
    rw [Delivery.update, h.check_eq]
    split
    · exact h.reread current
    · rename_i hsame
      split
      · rename_i hahead
        exact absurd (h.revision_le hwell (not_not.mp hsame).symm) (not_le.mpr hahead)
      · exact h.go nofun hwell
  | updateRows current committed | pageRows target bounds generation committed =>
    obtain rfl := Option.some.inj hnext
    exact h.go nofun hwell
  | updateMerge current committed rows =>
    obtain rfl := Option.some.inj hnext
    rw [Delivery.updateMerge, h.check_eq]
    split
    · exact h.reread current
    · rename_i hsame
      split
      · exact h.go nofun hwell
      · split
        · rename_i batch hbatch
          exact h.sendBatch (not_not.mp hsame) hwell hbatch
        · exact h.reread current
  | paging =>
    dsimp only at hnext
    split at hnext
    · obtain rfl := Option.some.inj hnext
      exact h.go nofun trivial
    · rename_i hrange
      obtain rfl := Option.some.inj hnext
      exact h.go nofun fun _ => hrange
  | entryLook messageId target =>
    obtain rfl := Option.some.inj hnext
    rw [Delivery.entryLook, h.check_eq]
    split
    · exact h.go nofun nofun
    · exact h.go nofun trivial
  | entryRows messageId target generation committed =>
    obtain rfl := Option.some.inj hnext
    exact h.go nofun trivial
  | entryMerge messageId target generation committed stored =>
    obtain rfl := Option.some.inj hnext
    dsimp only at hstays
    rw [Delivery.entryMerge, h.check_eq]
    split
    · rename_i hgeneration
      exact h.fail (by_contra fun hframes => hgeneration (hstays hframes).1)
    · split
      · exact h.go nofun trivial
      · rename_i hcommitted
        split
        · exact h.go nofun nofun
        · rename_i hnone
          exact h.fail (by_contra fun hframes =>
            (hstays hframes).2 (not_not.mp hcommitted) hnone)
  | pageLook target =>
    obtain rfl := Option.some.inj hnext
    refine h.pageLook hwell fun found hfound => ?_
    subst hfound
    exact hstays
  | pageMerge target bounds generation committed rows =>
    obtain rfl := Option.some.inj hnext
    rw [Delivery.pageMerge, h.check_eq]
    split
    · rename_i hcommitted
      exact h.go nofun hwell.1
    · refine h.send (.snapshot (assemblePage _ _ _ _)) rfl rfl (fun _ _ => trivial)
        hwell.2 rfl
  | failed error => exact nomatch hnext

end InStep

/-! ## The loop comes to rest -/

/-- How far a phase is from waiting.  A read whose revision has meanwhile been stored is done
again. -/
def DeliveryPhase.stage (s : HistorySession) : DeliveryPhase → ℕ
  | .waiting => 0
  | .reserving => 13
  | .updating _ => 10
  | .updateRows _ committed => if s.state.committedRevision = committed then 9 else 12
  | .updateMerge _ committed _ => if s.state.committedRevision = committed then 8 else 11
  | .paging => 7
  | .entryLook _ _ => 6
  | .entryRows _ _ _ committed => if s.state.committedRevision = committed then 5 else 8
  | .entryMerge _ _ _ committed _ => if s.state.committedRevision = committed then 4 else 7
  | .pageLook _ => 3
  | .pageRows _ _ generation committed =>
    if s.state.generation = generation ∧ s.state.committedRevision = committed then 2 else 5
  | .pageMerge _ _ generation committed _ =>
    if s.state.generation = generation ∧ s.state.committedRevision = committed then 1 else 4
  | .failed _ => 0

namespace Delivery

variable {s : HistorySession} {d d' : Delivery}

/-- What a change that was not seen yet costs: a whole round. -/
def unseen (s : HistorySession) (d : Delivery) : ℕ := if s.version = d.seen then 0 else 14

/-- How far the loop is from resting. -/
def rank (s : HistorySession) (d : Delivery) : ℕ :=
  match d.phase with
  | .reserving => 13
  | phase => phase.stage s + d.unseen s

theorem rank_eq (hphase : d.phase ≠ .reserving) : d.rank s = d.phase.stage s + d.unseen s := by
  rw [rank]
  split
  · contradiction
  · rfl

/-- The loop is one phase further, and has not looked at the channel. -/
structure Closer (s : HistorySession) (d d' : Delivery) : Prop where
  seen : d'.seen = d.seen
  phase : d'.phase ≠ .reserving
  stage : d'.phase.stage s < d.phase.stage s

theorem Closer.rank_lt (h : Closer s d d') (hphase : d.phase ≠ .reserving) :
    d'.rank s < d.rank s := by
  have hunseen : d'.unseen s = d.unseen s := by rw [unseen, unseen, h.seen]
  have hstage := h.stage
  rw [rank_eq hphase, rank_eq h.phase]
  omega

theorem closer_fail {error : Error} (hstage : 0 < d.phase.stage s) : Closer s d (d.fail error) :=
  ⟨rfl, nofun, hstage⟩

theorem closer_check (h : Closer s d d') : Closer s d (d.check s d') := by
  rw [check]
  split
  · exact closer_fail (Nat.zero_lt_of_lt h.stage)
  · exact h

theorem closer_of_next (hnext : d.next s = some d') (hwaiting : d.phase ≠ .waiting)
    (hreserving : d.phase ≠ .reserving) : Closer s d d' := by
  rw [next] at hnext
  generalize hphase : d.phase = phase at hnext hwaiting hreserving
  have hcloser : ∀ {d' : Delivery}, d'.seen = d.seen → d'.phase ≠ .reserving →
      d'.phase.stage s < phase.stage s → Closer s d d' :=
    fun hseen hphase' hstage => ⟨hseen, hphase', hphase ▸ hstage⟩
  have hfail : ∀ {error : Error}, 0 < phase.stage s → Closer s d (d.fail error) :=
    fun hstage => closer_fail (hphase ▸ hstage)
  cases phase with
  | waiting => exact absurd rfl hwaiting
  | reserving => exact absurd rfl hreserving
  | updating current =>
    obtain rfl := Option.some.inj hnext
    refine closer_check ?_
    split
    · exact hcloser rfl nofun (by decide : 7 < 10)
    · split
      · exact hfail (by decide : 0 < 10)
      · exact hcloser rfl nofun (by simp [DeliveryPhase.stage])
  | updateRows current committed | entryRows messageId target generation committed
  | pageRows target bounds generation committed =>
    obtain rfl := Option.some.inj hnext
    exact hcloser rfl nofun (by simp only [DeliveryPhase.stage]; split <;> omega)
  | updateMerge current committed rows =>
    obtain rfl := Option.some.inj hnext
    refine closer_check ?_
    have hpaging : 7 < (DeliveryPhase.updateMerge current committed rows).stage s := by
      simp only [DeliveryPhase.stage]
      split <;> omega
    split
    · exact hcloser rfl nofun hpaging
    · split
      · rename_i hcommitted
        exact hcloser rfl nofun (by simp [DeliveryPhase.stage, hcommitted])
      · split
        · exact hcloser rfl nofun (Nat.zero_lt_of_lt hpaging)
        · exact hcloser rfl nofun hpaging
  | paging =>
    dsimp only at hnext
    split at hnext
    all_goals
      obtain rfl := Option.some.inj hnext
      exact hcloser rfl nofun (by simp [DeliveryPhase.stage])
  | entryLook messageId target =>
    obtain rfl := Option.some.inj hnext
    refine closer_check ?_
    split
    · exact hcloser rfl nofun (by decide : 3 < 6)
    · exact hcloser rfl nofun (by simp [DeliveryPhase.stage])
  | entryMerge messageId target generation committed stored =>
    obtain rfl := Option.some.inj hnext
    refine closer_check ?_
    have hlook : 3 < (DeliveryPhase.entryMerge messageId target generation committed
        stored).stage s := by
      simp only [DeliveryPhase.stage]
      split <;> omega
    split
    · exact hfail (Nat.zero_lt_of_lt hlook)
    · split
      · rename_i hcommitted
        exact hcloser rfl nofun (by simp [DeliveryPhase.stage, hcommitted])
      · split
        · exact hcloser rfl nofun hlook
        · exact hfail (Nat.zero_lt_of_lt hlook)
  | pageLook target =>
    obtain rfl := Option.some.inj hnext
    refine closer_check ?_
    have hstage : 0 < (DeliveryPhase.pageLook target).stage s := Nat.zero_lt_succ 2
    split
    · exact hfail hstage
    · split
      · exact hfail hstage
      · split
        · exact hfail hstage
        · exact hcloser rfl nofun (by simp [DeliveryPhase.stage])
  | pageMerge target bounds generation committed rows =>
    obtain rfl := Option.some.inj hnext
    refine closer_check ?_
    split
    · rename_i hstale
      have hstale' : ¬(s.state.generation = generation ∧
          s.state.committedRevision = committed) := by
        rintro ⟨hgeneration, hcommitted⟩
        exact hstale.elim (absurd hgeneration) (absurd hcommitted)
      exact hcloser rfl nofun (by simp [DeliveryPhase.stage, hstale'])
    · exact hcloser rfl nofun (by simp only [DeliveryPhase.stage, sendPage]; split <;> omega)
  | failed error => exact nomatch hnext

/-- Every step brings the loop closer to resting, as long as the session does not change. -/
theorem rank_lt (hnext : d.next s = some d') : d'.rank s < d.rank s := by
  by_cases hwaiting : d.phase = .waiting
  · rw [next, hwaiting] at hnext
    dsimp only at hnext
    split at hnext
    · exact nomatch hnext
    · rename_i hseen
      obtain rfl := Option.some.inj hnext
      show 13 < d.rank s
      rw [rank_eq (by rw [hwaiting]; nofun), hwaiting, unseen, if_neg hseen]
      exact (by decide : 13 < 0 + 14)
  · by_cases hreserving : d.phase = .reserving
    · rw [next, hreserving] at hnext
      obtain rfl := Option.some.inj hnext
      rw [show d.rank s = 13 by rw [rank, hreserving]]
      rw [borrow]
      have hseen : ∀ phase : DeliveryPhase, phase ≠ .reserving → phase.stage s < 13 →
          ({ d with seen := s.version, phase } : Delivery).rank s < 13 := by
        intro phase hphase hstage
        rw [rank_eq hphase, unseen, if_pos rfl]
        exact hstage
      split
      · exact hseen _ nofun (by decide : 0 < 13)
      · split
        · exact hseen _ nofun (by decide : 0 < 13)
        · exact hseen _ nofun (by decide : 10 < 13)
    · exact (closer_of_next hnext hwaiting hreserving).rank_lt hreserving

end Delivery

/-! ## The subscriber and the session -/

/-- A step that finds its target. -/
def KeptStep (r : HistoryRun) (event : HistoryEvent) (r' : HistoryRun) : Prop :=
  HistoryStep r event r' ∧ TargetStays r event

theorem InStep.step {r r' : HistoryRun} {event : HistoryEvent} (h : InStep r)
    (hstep : KeptStep r event r') : InStep r' := by
  obtain ⟨hstep, hstays⟩ := hstep
  cases hstep with
  | change hchange => exact h.change hchange.effect
  | deliver hnext => exact h.deliver hstays hnext

theorem reachable_session {row : UiSessionRow} {canonicalTail : ℕ} {stored : EntryMap}
    {s : HistorySession} (hrow : row.failure = none)
    (h : Relation.ReflTransGen SessionStep (.opened row canonicalTail stored) s) :
    s.state.failure = none ∧ s.published = s.state.current ∧
      s.state.generation ∈ s.generations := by
  induction h with
  | refl => exact ⟨hrow, rfl, mem_singleton_self _⟩
  | @tail b c _ hstep ih =>
    obtain ⟨hfailure, hpublished, hknown⟩ := ih
    cases hstep.effect with
    | quiet hcurrent hpublished' _ hgenerations =>
      refine ⟨(congrArg UiHistoryRevision.failure hcurrent).trans hfailure,
        hpublished'.trans (hpublished.trans hcurrent.symm), ?_⟩
      have hgeneration : c.state.generation = b.state.generation :=
        congrArg UiHistoryRevision.generation hcurrent
      rw [hgenerations, hgeneration]
      exact hknown
    | grown hgrows hpublished' _ hgenerations =>
      refine ⟨hgrows.failure.trans hfailure, hpublished', ?_⟩
      rw [hgenerations, hgrows.generation]
      exact hknown
    | renewed _ hfailure' hpublished' _ hgenerations =>
      refine ⟨hfailure', hpublished', ?_⟩
      rw [hgenerations]
      exact mem_cons_self

theorem length_le_rank {r r' : HistoryRun} {events : List HistoryEvent}
    (hrun : Run HistoryStep r events r') (hdeliver : ∀ event ∈ events, event = .deliver) :
    events.length ≤ r.delivery.rank r.session := by
  induction hrun with
  | nil => exact Nat.zero_le _
  | cons hstep _ ih =>
    cases hstep with
    | change => exact nomatch hdeliver _ mem_cons_self
    | deliver hnext =>
      have hrest := ih fun event hevent => hdeliver event (mem_cons_of_mem _ hevent)
      have hlt := Delivery.rank_lt hnext
      rw [length_cons]
      exact Nat.succ_le_of_lt (Nat.lt_of_le_of_lt hrest hlt)

/-- What a subscriber can rely on. -/
structure Served (r : HistoryRun) : Prop where
  /-- After the answer to the subscription, the loop does not end with an error. -/
  connected : r.delivery.frames ≠ [] → ∀ error, r.delivery.phase ≠ .failed error
  linked : r.delivery.frames.IsChain Follows
  ordered : r.delivery.frames.Pairwise NotBefore
  /-- If the session does not change any more, the loop comes to rest. -/
  settles : ∃ bound, ∀ {events : List HistoryEvent} {r' : HistoryRun},
    Run HistoryStep r events r' → (∀ event ∈ events, event = .deliver) → events.length ≤ bound
  /-- Where it rests, the last frame is that of the session. -/
  current : r.delivery.next r.session = none → ∀ frame ∈ r.delivery.frames.getLast?,
    frame.generation = r.session.state.generation ∧ frame.revision = r.session.state.revision

theorem InStep.served {r : HistoryRun} (h : InStep r) : Served r where
  __ := h
  connected := by
    intro hframes error hphase
    have hwell := h.wellFormed
    rw [hphase] at hwell
    exact hframes hwell
  settles := ⟨_, length_le_rank⟩
  current := by
    intro hnext frame hlast
    have hframes : r.delivery.frames ≠ [] := by
      rintro hnil
      rw [hnil] at hlast
      exact nomatch hlast
    obtain ⟨hgeneration, hrevision⟩ := h.last frame hlast
    rw [Delivery.next] at hnext
    split at hnext
    case h_1 hwaiting =>
      split at hnext
      · rename_i hseen
        obtain ⟨hgeneration', hrevision'⟩ := h.rest hwaiting hseen
        exact ⟨hgeneration.trans hgeneration', hrevision.trans hrevision'⟩
      · exact nomatch hnext
    case h_6 => split at hnext <;> exact nomatch hnext
    case h_13 error hfailed =>
      have hwell := h.wellFormed
      rw [hfailed] at hwell
      exact absurd hwell hframes
    all_goals exact nomatch hnext

/-- **History in step**: as long as a range around a message finds it, the subscriber gets each
revision from where the last frame ended, never an older one, and the last one if the session
rests. -/
theorem history_in_step {row : UiSessionRow} {canonicalTail : ℕ} {stored : EntryMap}
    (hrow : row.failure = none) {s : HistorySession}
    (hopened : Relation.ReflTransGen SessionStep (.opened row canonicalTail stored) s)
    (range : UiHistoryRange) (limit : ℕ) {events : List HistoryEvent} {r : HistoryRun}
    (hrun : Run KeptStep ⟨s, .subscribe s.version range limit⟩ events r) : Served r := by
  obtain ⟨hfailure, hpublished, hknown⟩ := reachable_session hrow hopened
  have hstart := InStep.subscribe hfailure hpublished hknown range limit
  have hinStep : InStep r := hrun.invariant (fun _ _ _ h hstep => h.step hstep) hstart
  exact hinStep.served

/-! ## A subscription around a message -/

def storedMessage : UiEntry where
  snapshot :=
    { id := "message"
      position := 0
      revision := 1
      canonicalCommitted := true
      content := .error ⟨"run", none, 0, "", .null, none⟩
      presentation := .default
      accumulatedArguments := none
      assistantId := none
      outcome := none }
  canonical := none
  contentVersion := 0
  materializer := none

/-- A session with one stored message. -/
def storedSession : HistorySession :=
  .opened ⟨"first", 1, 1, 1, none⟩ 1 ((∅ : EntryMap).insert "message" storedMessage)

def presented : UiPresentation := { UiPresentation.default with document := some (.text "") }

/-- The page around the message is sent, its presentation changes, and the change is delivered. -/
theorem history_in_step_presented : ∃ r,
    Run KeptStep ⟨storedSession, .subscribe 0 (.around "message") 1⟩
      (List.replicate 7 .deliver ++ .change :: List.replicate 5 .deliver) r ∧
    r.delivery.frames.length = 2 ∧ Served r := by
  have hrun : ∃ r, Run KeptStep ⟨storedSession, .subscribe 0 (.around "message") 1⟩
      (List.replicate 7 .deliver ++ .change :: List.replicate 5 .deliver) r ∧
      r.delivery.frames.length = 2 := by
    refine ⟨_, .cons ⟨.deliver rfl, trivial⟩ <| .cons ⟨.deliver rfl, trivial⟩ <|
      .cons ⟨.deliver rfl, trivial⟩ <|
      .cons ⟨.deliver rfl, fun hframes => absurd rfl hframes⟩ <|
      .cons ⟨.deliver rfl, fun hframes => absurd rfl hframes⟩ <| .cons ⟨.deliver rfl, trivial⟩ <|
      .cons ⟨.deliver rfl, trivial⟩ <|
      .cons ⟨.change (.change (.updatePresentation ⟨"message", "first"⟩ presented
        (some storedMessage)) rfl), trivial⟩ <|
      .cons ⟨.deliver rfl, trivial⟩ <| .cons ⟨.deliver rfl, trivial⟩ <|
      .cons ⟨.deliver rfl, trivial⟩ <| .cons ⟨.deliver rfl, trivial⟩ <|
      .cons ⟨.deliver rfl, trivial⟩ <| .nil _, rfl⟩
  obtain ⟨r, hrun, hframes⟩ := hrun
  exact ⟨r, hrun, hframes, history_in_step rfl .refl _ _ hrun⟩

/-- The session is truncated between the read of the published revision and the page: the message
is gone, and the client is disconnected. -/
theorem target_removed : ¬∀ (row : UiSessionRow) (canonicalTail : ℕ) (stored : EntryMap)
    (s : HistorySession) (range : UiHistoryRange) (limit : ℕ) (events : List HistoryEvent)
    (r : HistoryRun), row.failure = none →
    Relation.ReflTransGen SessionStep (.opened row canonicalTail stored) s →
    1 ≤ limit → limit ≤ 500 → Run HistoryStep ⟨s, .subscribe s.version range limit⟩ events r →
    Served r := by
  intro h
  have hrun : ∃ r error, Run HistoryStep ⟨storedSession, .subscribe 0 (.around "message") 1⟩
      (List.replicate 7 .deliver ++ .change :: List.replicate 2 .deliver ++
        List.replicate 3 .change ++ List.replicate 5 .deliver) r ∧
      r.delivery.frames ≠ [] ∧ r.delivery.phase = .failed error := by
    refine ⟨_, _, .cons (.deliver rfl) <| .cons (.deliver rfl) <| .cons (.deliver rfl) <|
      .cons (.deliver rfl) <| .cons (.deliver rfl) <| .cons (.deliver rfl) <|
      .cons (.deliver rfl) <|
      .cons (.change (.change (.updatePresentation ⟨"message", "first"⟩ presented
        (some storedMessage)) rfl)) <|
      .cons (.deliver rfl) <| .cons (.deliver rfl) <|
      .cons (.change (@SessionStep.beginTruncation _ 0 rfl)) <|
      .cons (.change (.storeTruncation rfl)) <|
      .cons (.change (@SessionStep.endTruncation _ 0 _ "second" rfl (by decide))) <|
      .cons (.deliver rfl) <| .cons (.deliver rfl) <| .cons (.deliver rfl) <|
      .cons (.deliver rfl) <| .cons (.deliver rfl) <| .nil _, nofun, rfl⟩
  obtain ⟨r, error, hrun, hframes, hfailed⟩ := hrun
  exact (h ⟨"first", 1, 1, 1, none⟩ 1 _ _ (.around "message") 1 _ r rfl .refl le_rfl (by decide)
    hrun).connected hframes error hfailed

end Chelix.Gateway
