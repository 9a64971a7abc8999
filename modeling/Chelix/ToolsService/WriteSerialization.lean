import Chelix.Library.Run
import Chelix.ToolsService.FileWrite

/-!
# Writes to one file are serialized

The permit of a path is held by the call, not by its blocking task.  So the tasks on one path
exclude each other as long as no client drops a call whose task is not finished.
-/

namespace Chelix.ToolsService

open Function

open Chelix.Library List WriteRuntime

/-- A step that drops no call whose task is not finished. -/
def KeepsTasks (s : WriteRun) : WriteEvent → Prop
  | .drop call => ∀ request phase task, s.runtime.calls[call]? = some ⟨request, phase, some task⟩ →
      ∃ result, task.stage = .finished result
  | _ => True

/-! ## Semaphores -/

/-- The path and the semaphore that a call refers to. -/
def Phase.refers : Phase → Option (Path × ℕ)
  | .waiting path semaphore | .granted path semaphore | .running path semaphore =>
    some (path, semaphore)
  | .resolving | .resolved _ | .looking _ | .returned _ | .dropped => none

variable {path : Path} {semaphore : ℕ}

theorem Phase.semaphore_of_refers {phase : Phase} (h : phase.refers = some (path, semaphore)) :
    phase.semaphore = some semaphore := by
  cases phase <;> cases h <;> rfl

/-- Every call refers to the semaphore that the map has for its path; at most one call holds the
permit of a semaphore; an unfinished task belongs to a call that holds a permit. -/
structure Serialized (s : WriteRuntime) : Prop where
  known : ∀ (c : ℕ) (call : WriteCall) (path : Path) (semaphore : ℕ), s.calls[c]? = some call →
    call.phase.refers = some (path, semaphore) →
    s.pathPermits path = some semaphore ∧ semaphore < s.nextSemaphore
  alone : ∀ (c c' : ℕ) (call call' : WriteCall) (semaphore : ℕ), s.calls[c]? = some call →
    s.calls[c']? = some call' → call.phase.permit = some semaphore →
    call'.phase.permit = some semaphore → c = c'
  taken : ∀ (c : ℕ) (call : WriteCall) (semaphore : ℕ), s.calls[c]? = some call →
    call.phase.permit = some semaphore → s.available semaphore = 0
  few : ∀ semaphore, s.available semaphore ≤ 1
  tasks : ∀ (c : ℕ) (call : WriteCall) (path : Path) (stage : Stage), s.calls[c]? = some call →
    call.task = some ⟨path, stage⟩ → (∃ result, stage = .finished result) ∨
      ∃ semaphore, call.phase = .running path semaphore

/-- One call is new or has changed. -/
def Changes (s t : WriteRuntime) (call : ℕ) (entry : WriteCall) : Prop :=
  ∀ c, t.calls[c]? = if c = call then some entry else s.calls[c]?

variable {c : ℕ} {stage stage' : Stage} {old : WriteCall} {files : Path → Option Bytes}

section Changes

variable {s t : WriteRuntime} {call : ℕ} {entry : WriteCall}

theorem Changes.get (h : Changes s t call entry) : t.calls[call]? = some entry :=
  (h call).trans (if_pos rfl)

theorem Changes.get_of_ne (h : Changes s t call entry) (hc : c ≠ call) :
    t.calls[c]? = s.calls[c]? :=
  (h c).trans (if_neg hc)

variable {e : WriteCall}

theorem Changes.cases (h : Changes s t call entry) (hc : t.calls[c]? = some e) :
    c = call ∧ e = entry ∨ c ≠ call ∧ s.calls[c]? = some e := by
  by_cases heq : c = call
  · subst heq
    rw [h.get] at hc
    exact .inl ⟨rfl, (Option.some.inj hc).symm⟩
  · exact .inr ⟨heq, h.get_of_ne heq ▸ hc⟩

theorem changes_modify {f : WriteCall → WriteCall} (hcall : s.calls[call]? = some entry)
    (ht : t.calls = s.calls.modify call f) : Changes s t call (f entry) := by
  intro c
  rw [ht, List.getElem?_modify]
  by_cases hc : c = call
  · subst hc
    rw [if_pos rfl, hcall]
    simp
  · have hne : ¬call = c := fun h => hc h.symm
    rw [if_neg hc]
    simp only [if_neg hne]
    exact Option.map_id'

theorem changes_setPhase (phase : Phase) (hcall : s.calls[call]? = some entry) :
    Changes s (s.setPhase call phase) call { entry with phase } :=
  changes_modify (f := fun e => { e with phase }) hcall rfl

theorem changes_setTask (hcall : s.calls[call]? = some entry) :
    Changes s (s.setTask call path stage) call { entry with task := some ⟨path, stage⟩ } :=
  changes_modify (f := fun e => { e with task := some ⟨path, stage⟩ }) hcall rfl

theorem changes_request (request : WriteRequest) :
    Changes s { s with calls := s.calls ++ [⟨request, .resolving, none⟩] } s.calls.length
      ⟨request, .resolving, none⟩ := by
  intro c
  rw [List.getElem?_append]
  rcases Nat.lt_trichotomy c s.calls.length with hlt | rfl | hgt
  · rw [if_pos hlt, if_neg (by omega)]
  · simp
  · rw [if_neg (by omega), if_neg (by omega), List.getElem?_eq_none (Nat.le_of_lt hgt)]
    refine List.getElem?_eq_none ?_
    rw [length_singleton]
    omega

theorem Changes.of_calls {s' : WriteRuntime} (h : Changes s' t call entry)
    (hcalls : s'.calls = s.calls) : Changes s t call entry := by
  intro c
  rw [← hcalls]
  exact h c

theorem Changes.trans {u : WriteRuntime} {entry' : WriteCall} (h : Changes s t call entry)
    (h' : Changes t u call entry') : Changes s u call entry' := by
  intro c
  rw [h' c, h c]
  split <;> rfl

theorem Serialized.change (h : Serialized s) (ht : Changes s t call entry)
    (hothers : ∀ c e path semaphore, c ≠ call → s.calls[c]? = some e →
      e.phase.refers = some (path, semaphore) → t.pathPermits path = some semaphore)
    (hnext : s.nextSemaphore ≤ t.nextSemaphore)
    (hknown : ∀ path semaphore, entry.phase.refers = some (path, semaphore) →
      t.pathPermits path = some semaphore ∧ semaphore < t.nextSemaphore)
    (hfew : ∀ semaphore, t.available semaphore ≤ 1)
    (htaken : ∀ c e semaphore, c ≠ call → s.calls[c]? = some e →
      e.phase.permit = some semaphore → t.available semaphore = 0)
    (hpermit : ∀ semaphore, entry.phase.permit = some semaphore → t.available semaphore = 0 ∧
      ∀ c e, c ≠ call → s.calls[c]? = some e → e.phase.permit ≠ some semaphore)
    (htask : ∀ path stage, entry.task = some ⟨path, stage⟩ →
      (∃ result, stage = .finished result) ∨ ∃ semaphore, entry.phase = .running path semaphore) :
    Serialized t where
  known c e path semaphore hc hrefers := by
    rcases ht.cases hc with ⟨-, rfl⟩ | ⟨hne, hold⟩
    · exact hknown path semaphore hrefers
    · exact ⟨hothers c e path semaphore hne hold hrefers,
        (h.known c e path semaphore hold hrefers).2.trans_le hnext⟩
  alone c c' e e' semaphore hc hc' he he' := by
    rcases ht.cases hc with ⟨rfl, rfl⟩ | ⟨hne, hold⟩
    · rcases ht.cases hc' with ⟨rfl, rfl⟩ | ⟨hne', hold'⟩
      · rfl
      · exact absurd he' ((hpermit semaphore he).2 c' e' hne' hold')
    · rcases ht.cases hc' with ⟨rfl, rfl⟩ | ⟨hne', hold'⟩
      · exact absurd he ((hpermit semaphore he').2 c e hne hold)
      · exact h.alone c c' e e' semaphore hold hold' he he'
  taken c e semaphore hc he := by
    rcases ht.cases hc with ⟨-, rfl⟩ | ⟨hne, hold⟩
    · exact (hpermit semaphore he).1
    · exact htaken c e semaphore hne hold he
  few := hfew
  tasks c e path stage hc he := by
    rcases ht.cases hc with ⟨-, rfl⟩ | ⟨-, hold⟩
    · exact htask path stage he
    · exact h.tasks c e path stage hold he

theorem Serialized.retained (h : Serialized s) (hc : s.calls[c]? = some e)
    (hrefers : e.phase.refers = some (path, semaphore)) : s.retained path = some semaphore := by
  have hcount : 0 < s.strongCount semaphore :=
    countP_pos_iff.mpr ⟨e, mem_of_getElem? hc,
      decide_eq_true (Phase.semaphore_of_refers hrefers)⟩
  unfold WriteRuntime.retained
  rw [(h.known c e path semaphore hc hrefers).1]
  exact Option.filter_some_pos (decide_eq_true hcount)

theorem Serialized.quiet (h : Serialized s) (ht : Changes s t call entry)
    (hold : s.calls[call]? = some old)
    (hpaths : ∀ path semaphore, s.pathPermits path = some semaphore →
      s.retained path = some semaphore → t.pathPermits path = some semaphore)
    (havailable : t.available = s.available) (hnext : t.nextSemaphore = s.nextSemaphore)
    (hphase : entry.phase.refers = none ∧ old.phase.permit = none ∨ entry.phase = old.phase)
    (htask : ∀ path stage, entry.task = some ⟨path, stage⟩ →
      (∃ result, stage = .finished result) ∨ ∃ semaphore, entry.phase = .running path semaphore) :
    Serialized t := by
  have hpermit : ∀ phase : Phase, phase.refers = none → phase.permit = none := by
    intro phase hnone
    cases phase <;> first | rfl | cases hnone
  have hkeep : ∀ (c : ℕ) (e : WriteCall) (path : Path) (semaphore : ℕ), s.calls[c]? = some e →
      e.phase.refers = some (path, semaphore) → t.pathPermits path = some semaphore :=
    fun c e path semaphore hc hrefers =>
      hpaths path semaphore (h.known c e path semaphore hc hrefers).1 (h.retained hc hrefers)
  refine h.change ht (fun c e path semaphore _ hc hrefers => hkeep c e path semaphore hc hrefers)
    hnext.ge (fun path semaphore hrefers => ?_) (havailable ▸ h.few)
    (fun c e semaphore _ hc he => ?_) (fun semaphore he => ?_) htask
  · rcases hphase with ⟨hnone, -⟩ | hsame
    · rw [hnone] at hrefers
      cases hrefers
    · rw [hsame] at hrefers
      exact ⟨hkeep call old path semaphore hold hrefers,
        hnext ▸ (h.known call old path semaphore hold hrefers).2⟩
  · rw [havailable]
    exact h.taken c e semaphore hc he
  · rcases hphase with ⟨hnone, -⟩ | hsame
    · rw [hpermit _ hnone] at he
      cases he
    · rw [hsame] at he
      rw [havailable]
      exact ⟨h.taken call old semaphore hold he,
        fun c e hne hc hother => hne (h.alone c call e old semaphore hc hold hother he)⟩

theorem Serialized.setTask (h : Serialized s) (hold : s.calls[call]? = some old)
    (htask : old.task = some ⟨path, stage⟩) (hstage : ∀ result, stage ≠ .finished result) :
    Serialized ({ s with files }.setTask call path stage') := by
  refine h.quiet ((changes_setTask (s := { s with files }) hold).of_calls rfl) hold
    (fun _ _ hpath _ => hpath) rfl rfl (.inr rfl) fun path' stage'' heq => .inr ?_
  cases heq
  exact (h.tasks call old path stage hold htask).resolve_left
    fun ⟨result, hresult⟩ => hstage result hresult

theorem Serialized.release (h : Serialized s) (phase : Phase) (hold : s.calls[call]? = some old)
    (hphase : phase.refers = none)
    (htask : ∀ path stage, old.task = some ⟨path, stage⟩ → ∃ result, stage = .finished result) :
    Serialized ((s.release old.phase).setPhase call phase) := by
  have hnone : phase.permit = none := by
    cases phase <;> first | rfl | cases hphase
  cases hheld : old.phase.permit with
  | none =>
    have hrelease : s.release old.phase = s := by
      unfold WriteRuntime.release
      rw [hheld]
    rw [hrelease]
    exact h.quiet (changes_setPhase _ hold) hold (fun _ _ hpath _ => hpath) rfl rfl
      (.inl ⟨hphase, hheld⟩) fun path stage heq => .inl (htask path stage heq)
  | some semaphore =>
    have hzero := h.taken call old semaphore hold hheld
    have hrelease : s.release old.phase =
        { s with available := Function.update s.available semaphore 1 } := by
      unfold WriteRuntime.release
      rw [hheld]
      simp only [hzero]
    rw [hrelease]
    refine h.change ((changes_setPhase _ hold).of_calls rfl)
      (fun c e path sem _ hc hrefers => (h.known c e path sem hc hrefers).1) (le_refl _)
      (fun path sem hrefers => ?_) (fun sem => ?_) (fun c e sem hne hc he => ?_)
      (fun sem he => ?_) fun path stage heq => .inl (htask path stage heq)
    · rw [hphase] at hrefers
      cases hrefers
    · change Function.update s.available semaphore 1 sem ≤ 1
      rw [update_apply]
      split
      · exact le_refl _
      · exact h.few sem
    · change Function.update s.available semaphore 1 sem = 0
      rw [update_of_ne]
      · exact h.taken c e sem hc he
      · rintro rfl
        exact hne (h.alone c call e old sem hc hold he hheld)
    · rw [hnone] at he
      cases he

theorem Serialized.lookUp (h : Serialized s) {runtime : WriteRuntime}
    (hold : s.calls[call]? = some old) (htask : old.task = none)
    (hlook : s.pathPermit path = (semaphore, runtime)) :
    Serialized (runtime.setPhase call (.waiting path semaphore)) := by
  unfold WriteRuntime.pathPermit at hlook
  cases hretained : s.retained path with
  | some kept =>
    rw [hretained] at hlook
    cases hlook
    have hget : s.pathPermits path = some semaphore ∧ 0 < s.strongCount semaphore := by
      unfold WriteRuntime.retained at hretained
      obtain ⟨hpath, hcount⟩ := Option.filter_eq_some_iff.mp hretained
      exact ⟨hpath, of_decide_eq_true hcount⟩
    obtain ⟨e, he, hsemaphore⟩ := countP_pos_iff.mp hget.2
    obtain ⟨c, hc⟩ := mem_iff_getElem?.mp he
    have hlt : semaphore < s.nextSemaphore := by
      have hsome := of_decide_eq_true hsemaphore
      cases hp : e.phase with
      | waiting path' sem | granted path' sem | running path' sem =>
        rw [hp] at hsome
        cases hsome
        exact (h.known c e path' semaphore hc (hp ▸ rfl)).2
      | resolving | resolved _ | looking _ | returned _ | dropped =>
        rw [hp] at hsome
        cases hsome
    refine h.change (changes_setPhase _ hold)
      (fun c e path sem _ hc hrefers => (h.known c e path sem hc hrefers).1) (le_refl _)
      (fun path' sem hrefers => ?_) h.few (fun c e sem _ hc he => h.taken c e sem hc he)
      (fun sem he => (by cases he)) fun path stage heq => ?_
    · cases hrefers
      exact ⟨hget.1, hlt⟩
    · simp only [htask] at heq
      cases heq
  | none =>
    rw [hretained] at hlook
    cases hlook
    refine h.change ((changes_setPhase _ hold).of_calls rfl) (fun c e path' sem _ hc hrefers => ?_)
      (Nat.le_succ _) (fun path' sem hrefers => ?_) (fun sem => ?_) (fun c e sem _ hc he => ?_)
      (fun sem he => (by cases he)) fun path stage heq => ?_
    · change Function.update s.pathPermits path (some s.nextSemaphore) path' = some sem
      rw [update_of_ne]
      · exact (h.known c e path' sem hc hrefers).1
      · rintro rfl
        rw [h.retained hc hrefers] at hretained
        cases hretained
    · cases hrefers
      exact ⟨update_self .., Nat.lt_succ_self _⟩
    · change Function.update s.available s.nextSemaphore 1 sem ≤ 1
      rw [update_apply]
      split
      · exact le_refl _
      · exact h.few sem
    · change Function.update s.available s.nextSemaphore 1 sem = 0
      rw [update_of_ne]
      · exact h.taken c e sem hc he
      · obtain ⟨path', hrefers⟩ : ∃ path', e.phase.refers = some (path', sem) := by
          cases hp : e.phase with
          | granted path' _ | running path' _ =>
            rw [hp] at he
            cases he
            exact ⟨path', rfl⟩
          | resolving | resolved _ | looking _ | waiting _ _ | returned _ | dropped =>
            rw [hp] at he
            cases he
        exact (h.known c e path' sem hc hrefers).2.ne
    · simp only [htask] at heq
      cases heq

/-- **At most one unfinished task** is on a path. -/
theorem Serialized.eq_of_unfinished (h : Serialized s) {c' : ℕ} {e' : WriteCall}
    (hc : s.calls[c]? = some e) (hc' : s.calls[c']? = some e') (he : e.task = some ⟨path, stage⟩)
    (he' : e'.task = some ⟨path, stage'⟩) (hstage : ∀ result, stage ≠ .finished result)
    (hstage' : ∀ result, stage' ≠ .finished result) : c = c' := by
  obtain ⟨semaphore, hphase⟩ := (h.tasks c e path stage hc he).resolve_left
    fun ⟨result, hresult⟩ => hstage result hresult
  obtain ⟨semaphore', hphase'⟩ := (h.tasks c' e' path stage' hc' he').resolve_left
    fun ⟨result, hresult⟩ => hstage' result hresult
  have hknown := (h.known c e path semaphore hc (hphase ▸ rfl)).1
  have hknown' := (h.known c' e' path semaphore' hc' (hphase' ▸ rfl)).1
  rw [hknown] at hknown'
  obtain rfl := Option.some.inj hknown'
  exact h.alone c c' e e' semaphore hc hc' (hphase ▸ rfl) (hphase' ▸ rfl)

theorem Serialized.acquire (h : Serialized s) {request : WriteRequest}
    (hold : s.calls[call]? = some ⟨request, .waiting path semaphore, none⟩)
    (hpos : s.available semaphore > 0) :
    Serialized ((s.take semaphore).setPhase call (.granted path semaphore)) := by
  have hfew := h.few semaphore
  refine h.change ((changes_setPhase (s := s.take semaphore) _ hold).of_calls rfl)
    (fun c e path' sem _ hc hrefers => (h.known c e path' sem hc hrefers).1) (le_refl _)
    (fun path' sem hrefers => ?_) (fun sem => ?_) (fun c e sem _ hc he => ?_) (fun sem he => ?_)
    fun path' stage heq => (by cases heq)
  · cases hrefers
    exact h.known call _ path semaphore hold rfl
  · change Function.update s.available semaphore (s.available semaphore - 1) sem ≤ 1
    rw [update_apply]
    split
    · omega
    · exact h.few sem
  · change Function.update s.available semaphore (s.available semaphore - 1) sem = 0
    have hzero := h.taken c e sem hc he
    rw [update_apply]
    split
    · omega
    · exact hzero
  · cases he
    refine ⟨?_, fun c e hne hc hother => ?_⟩
    · change Function.update s.available semaphore (s.available semaphore - 1) semaphore = 0
      rw [update_self]
      omega
    · have hzero := h.taken c e semaphore hc hother
      omega

end Changes

/-- **One step keeps the semaphores**, if it drops no call whose task is not finished. -/
theorem serialized_step {s t : WriteRun} {e : WriteEvent} (h : Serialized s.runtime)
    (hstep : WriteStep s e t) (hkeeps : KeepsTasks s e) : Serialized t.runtime := by
  cases hstep with
  | @request request =>
    refine h.change (changes_request request)
      (fun c e path semaphore _ hc hrefers => (h.known c e path semaphore hc hrefers).1)
      (le_refl _) (fun _ _ hrefers => (by cases hrefers)) h.few
      (fun c e semaphore _ hc he => h.taken c e semaphore hc he)
      (fun _ he => (by cases he)) fun _ _ heq => (by cases heq)
  | resolved hcall | unresolved hcall =>
    exact h.quiet (changes_setPhase _ hcall) hcall (fun _ _ hpath _ => hpath) rfl rfl
      (.inl ⟨rfl, rfl⟩) fun _ _ heq => (by cases heq)
  | prune hcall _ =>
    exact h.quiet ((changes_setPhase (s := s.runtime.prune) _ hcall).of_calls rfl) hcall
      (fun _ _ _ hkept => hkept) rfl rfl (.inl ⟨rfl, rfl⟩) fun _ _ heq => (by cases heq)
  | lookUp hcall hlook => exact h.lookUp hcall rfl hlook
  | acquire hcall hpos => exact h.acquire hcall hpos
  | @spawn call request path semaphore hcall =>
    have hphase := changes_setPhase (.running path semaphore) hcall
    refine h.change (hphase.trans (changes_setTask hphase.get))
      (fun c e path' sem _ hc hrefers => (h.known c e path' sem hc hrefers).1) (le_refl _)
      (fun path' sem hrefers => ?_) h.few (fun c e sem _ hc he => h.taken c e sem hc he)
      (fun sem he => ?_) fun path' stage heq => ?_
    · cases hrefers
      exact h.known call _ path semaphore hcall rfl
    · cases he
      exact ⟨h.taken call _ semaphore hcall rfl, fun c e hne hc hother =>
        hne (h.alone c call e _ semaphore hc hcall hother rfl)⟩
    · cases heq
      exact .inr ⟨semaphore, rfl⟩
  | reached hcall | moved hcall _ | lost hcall | read hcall _ | refused hcall _
  | openFile hcall _ | write hcall _ | truncate hcall | sync hcall =>
    exact h.setTask hcall rfl fun _ heq => (by cases heq)
  | fail hcall hactive =>
    refine h.setTask hcall rfl fun _ heq => ?_
    rw [heq] at hactive
    cases hactive
  | @reply call request path semaphore task result hcall hfinished =>
    refine h.release (.returned result) hcall rfl fun path' stage heq => ?_
    cases heq
    exact ⟨result, hfinished⟩
  | @drop call entry hcall _ =>
    refine h.release .dropped hcall rfl fun path stage heq => ?_
    obtain ⟨request, phase, task⟩ := entry
    cases heq
    exact hkeeps request phase _ hcall

/-! ## Files -/

/-- The content of a file after some operations. -/
def contentAfter (files : Path → Option Bytes) (history : List WriteRecord) (path : Path) :
    Option Bytes :=
  history.foldl (fun content record => if record.path = path then record.content else content)
    (files path)

/-- What a task at some stage finds in its file, if it runs alone on a file that had some content
before. -/
def Stage.Holds (path : Path) (operation : WriteOperation) (before file : Option Bytes) :
    Stage → Prop
  | .reading => file = before
  | .opening content => newContent path before operation = .ok content ∧ file = before
  | .writing content written => newContent path before operation = .ok content ∧
      written ≤ content.length ∧
      file = some (content.take written ++ (before.getD []).drop written)
  | .syncing content => newContent path before operation = .ok content ∧ file = some content
  | .queued | .finished _ => False

/-- What an operation alone makes of a file: if it succeeds, its new content, and otherwise what
one of its stages holds. -/
def Leaves (path : Path) (operation : WriteOperation) (before : Option Bytes)
    (result : Except String Unit) (file : Option Bytes) : Prop :=
  match result with
  | .ok () => ∃ content, newContent path before operation = .ok content ∧ file = some content
  | .error _ => ∃ stage : Stage, stage.Holds path operation before file

/-- A history of operations that run one after the other. -/
inductive Sequential (files : Path → Option Bytes) : List WriteRecord → Prop
  | nil : Sequential files []
  | snoc {history : List WriteRecord} {record : WriteRecord} :
      Sequential files history →
      Leaves record.path record.request.operation (contentAfter files history record.path)
        record.result record.content →
      Sequential files (history ++ [record])

theorem sequential_append_singleton {history : List WriteRecord} {record : WriteRecord}
    (h : Sequential files (history ++ [record])) :
    Leaves record.path record.request.operation (contentAfter files history record.path)
      record.result record.content := by
  generalize hall : history ++ [record] = all at h
  cases h with
  | nil => simp at hall
  | snoc _ hleaves =>
    obtain ⟨rfl, hrecord⟩ := append_inj' hall rfl
    obtain rfl := singleton_inj.mp hrecord
    exact hleaves

theorem contentAfter_append (files : Path → Option Bytes) (history : List WriteRecord)
    (record : WriteRecord) (path : Path) :
    contentAfter files (history ++ [record]) path =
      if record.path = path then record.content else contentAfter files history path := by
  unfold contentAfter
  rw [foldl_append]
  rfl

theorem writeAt_partial {content old : Bytes} {written count : ℕ}
    (h : written + count ≤ content.length) :
    writeAt (content.take written ++ old.drop written) written
        ((content.drop written).take count) =
      content.take (written + count) ++ old.drop (written + count) := by
  have hfront : (content.take written).length = written := by
    rw [length_take]
    omega
  have hchunk : ((content.drop written).take count).length = count := by
    rw [length_take, length_drop]
    omega
  have hpad : written - (content.take written ++ old.drop written).length = 0 := by
    rw [length_append, hfront]
    omega
  have htake : (content.take written ++ old.drop written).take written =
      content.take written := by
    rw [take_append_of_le_length hfront.ge, take_of_length_le hfront.le]
  have hdrop : (content.take written ++ old.drop written).drop (written + count) =
      old.drop (written + count) := by
    rw [drop_append, drop_eq_nil_of_le (by omega), nil_append, hfront,
      Nat.add_sub_cancel_left, drop_drop]
  unfold writeAt
  rw [hpad, htake, hchunk, hdrop, replicate_zero, append_nil, take_add]

theorem setLen_partial (content old : Bytes) :
    setLen (content.take content.length ++ old.drop content.length) content.length = content := by
  unfold setLen
  rw [take_length, take_left, length_append]
  have hpad : content.length - (content.length + (old.drop content.length).length) = 0 := by
    omega
  rw [hpad, replicate_zero, append_nil]

/-- The task of a call, with its request. -/
def taskOf (s : WriteRuntime) (c : ℕ) : Option (WriteRequest × Task) :=
  s.calls[c]?.bind fun call => call.task.map fun task => (call.request, task)

variable {s : WriteRuntime}

theorem taskOf_of_get {call : WriteCall} (h : s.calls[c]? = some call) :
    taskOf s c = call.task.map fun task => (call.request, task) := by
  unfold taskOf
  rw [h]
  rfl

theorem exists_of_taskOf {request : WriteRequest} {task : Task}
    (h : taskOf s c = some (request, task)) :
    ∃ phase, s.calls[c]? = some ⟨request, phase, some task⟩ := by
  obtain ⟨⟨request', phase, task'⟩, hcall, htask⟩ := Option.bind_eq_some_iff.mp h
  obtain ⟨task'', htask', heq⟩ := Option.map_eq_some_iff.mp htask
  cases htask'
  cases heq
  exact ⟨phase, hcall⟩

theorem Changes.taskOf {t : WriteRuntime} {call : ℕ} {entry : WriteCall}
    (h : Changes s t call entry) (c : ℕ) :
    taskOf t c = if c = call then entry.task.map fun task => (entry.request, task)
      else taskOf s c := by
  by_cases hc : c = call
  · subst hc
    rw [if_pos rfl, taskOf_of_get h.get]
  · unfold ToolsService.taskOf
    rw [if_neg hc, h.get_of_ne hc]

theorem taskOf_congr {t : WriteRuntime} (h : t.calls = s.calls) (c : ℕ) :
    taskOf t c = taskOf s c := by
  unfold taskOf
  rw [h]

theorem taskOf_setPhase {call : ℕ} {entry : WriteCall} (phase : Phase)
    (hcall : s.calls[call]? = some entry) (c : ℕ) :
    taskOf (s.setPhase call phase) c = taskOf s c := by
  refine ((changes_setPhase _ hcall).taskOf c).trans ?_
  split
  · rename_i hc
    rw [hc, taskOf_of_get hcall]
  · rfl

theorem calls_release (s : WriteRuntime) (phase : Phase) : (s.release phase).calls = s.calls := by
  unfold release
  split <;> rfl

theorem files_release (s : WriteRuntime) (phase : Phase) : (s.release phase).files = s.files := by
  unfold release
  split <;> rfl

/-- The history is sequential; a file that no task works on has the content after it, and one that
a task works on has what the task alone makes of that content. -/
structure Replayed (files : Path → Option Bytes) (s : WriteRun) : Prop where
  sequential : Sequential files s.history
  current : ∀ path, (∀ c request stage, taskOf s.runtime c = some (request, ⟨path, stage⟩) →
    stage.active = false) → s.runtime.files path = contentAfter files s.history path
  active : ∀ c request path stage, taskOf s.runtime c = some (request, ⟨path, stage⟩) →
    stage.active = true → stage.Holds path request.operation
      (contentAfter files s.history path) (s.runtime.files path)
  recorded : ∀ record ∈ s.history,
    taskOf s.runtime record.call = some (record.request, ⟨record.path, .finished record.result⟩)
  distinct : (s.history.map WriteRecord.call).Nodup
  acknowledged : ∀ c request path,
    taskOf s.runtime c = some (request, ⟨path, .finished (.ok ())⟩) →
    ∃ record ∈ s.history, record.call = c

section Replayed

variable {files : Path → Option Bytes} {s t : WriteRun}

theorem Replayed.frame (h : Replayed files s) (hhistory : t.history = s.history)
    (hfiles : t.runtime.files = s.runtime.files)
    (htask : ∀ c, taskOf t.runtime c = taskOf s.runtime c) : Replayed files t := by
  obtain ⟨hsequential, hcurrent, hactive, hrecorded, hdistinct, hacknowledged⟩ := h
  constructor
  · exact hhistory ▸ hsequential
  · simpa only [hhistory, hfiles, htask] using hcurrent
  · simpa only [hhistory, hfiles, htask] using hactive
  · simpa only [hhistory, htask] using hrecorded
  · exact hhistory ▸ hdistinct
  · simpa only [hhistory, htask] using hacknowledged

variable {call : ℕ} {request : WriteRequest} {path : Path} {stage stage' : Stage}

theorem Replayed.idle (h : Replayed files s) (hhistory : t.history = s.history)
    (hfiles : t.runtime.files = s.runtime.files)
    (ht : ∀ c, taskOf t.runtime c =
      if c = call then some (request, ⟨path, stage'⟩) else taskOf s.runtime c)
    (hold : ∀ task, taskOf s.runtime call = some task → task.2.stage = .queued)
    (hstage : stage'.active = false) (hok : stage' ≠ .finished (.ok ())) : Replayed files t where
  sequential := hhistory ▸ h.sequential
  current q hq := by
    rw [hhistory, hfiles]
    refine h.current q fun c request' stage'' hc => ?_
    by_cases heq : c = call
    · subst heq
      have hqueued : stage'' = .queued := hold _ hc
      rw [hqueued]
      rfl
    · exact hq c request' stage'' ((ht c).trans ((if_neg heq).trans hc))
  active c request' q stage'' hc hactive := by
    rw [ht c] at hc
    by_cases heq : c = call
    · rw [if_pos heq] at hc
      cases hc
      rw [hstage] at hactive
      cases hactive
    · rw [if_neg heq] at hc
      rw [hhistory, hfiles]
      exact h.active c request' q stage'' hc hactive
  recorded record hrecord := by
    rw [hhistory] at hrecord
    have hr := h.recorded record hrecord
    rw [ht, if_neg]
    · exact hr
    · rintro heq
      rw [heq] at hr
      cases hold _ hr
  distinct := hhistory ▸ h.distinct
  acknowledged c request' q hc := by
    rw [ht c] at hc
    by_cases heq : c = call
    · rw [if_pos heq] at hc
      cases hc
      exact absurd rfl hok
    · rw [if_neg heq] at hc
      rw [hhistory]
      exact h.acknowledged c request' q hc

theorem Replayed.advance (h : Replayed files s) (hhistory : t.history = s.history)
    (hfiles : ∀ q, q ≠ path → t.runtime.files q = s.runtime.files q)
    (ht : ∀ c, taskOf t.runtime c =
      if c = call then some (request, ⟨path, stage'⟩) else taskOf s.runtime c)
    (hold : taskOf s.runtime call = some (request, ⟨path, stage⟩))
    (hstage : ∀ result, stage ≠ .finished result)
    (halone : ∀ c request' stage'', c ≠ call →
      taskOf s.runtime c = some (request', ⟨path, stage''⟩) → stage''.active = false)
    (hactive : stage'.active = true)
    (hholds : stage'.Holds path request.operation (contentAfter files s.history path)
      (t.runtime.files path)) : Replayed files t where
  sequential := hhistory ▸ h.sequential
  current q hq := by
    have hne : q ≠ path := by
      rintro rfl
      have hidle := hq call request stage' ((ht call).trans (if_pos rfl))
      rw [hactive] at hidle
      cases hidle
    rw [hhistory, hfiles q hne]
    refine h.current q fun c request' stage'' hc => ?_
    by_cases heq : c = call
    · subst heq
      rw [hold] at hc
      cases hc
      exact absurd rfl hne
    · exact hq c request' stage'' ((ht c).trans ((if_neg heq).trans hc))
  active c request' q stage'' hc hactive' := by
    rw [ht c] at hc
    rw [hhistory]
    by_cases heq : c = call
    · rw [if_pos heq] at hc
      cases hc
      exact hholds
    · rw [if_neg heq] at hc
      have hne : q ≠ path := by
        rintro rfl
        rw [halone c request' stage'' heq hc] at hactive'
        cases hactive'
      rw [hfiles q hne]
      exact h.active c request' q stage'' hc hactive'
  recorded record hrecord := by
    rw [hhistory] at hrecord
    have hr := h.recorded record hrecord
    rw [ht, if_neg]
    · exact hr
    · rintro heq
      rw [heq, hold] at hr
      cases hr
      exact hstage _ rfl
  distinct := hhistory ▸ h.distinct
  acknowledged c request' q hc := by
    rw [ht c] at hc
    by_cases heq : c = call
    · rw [if_pos heq] at hc
      cases hc
      cases hactive
    · rw [if_neg heq] at hc
      rw [hhistory]
      exact h.acknowledged c request' q hc

theorem Replayed.finish (h : Replayed files s) {result : Except String Unit}
    (ht : ∀ c, taskOf (s.finish call path request result).runtime c =
      if c = call then some (request, ⟨path, .finished result⟩) else taskOf s.runtime c)
    (hold : taskOf s.runtime call = some (request, ⟨path, stage⟩))
    (hstage : stage.active = true)
    (halone : ∀ c request' stage'', c ≠ call →
      taskOf s.runtime c = some (request', ⟨path, stage''⟩) → stage''.active = false)
    (hleaves : Leaves path request.operation (contentAfter files s.history path) result
      (s.runtime.files path)) : Replayed files (s.finish call path request result) where
  sequential := h.sequential.snoc hleaves
  current q hq := by
    unfold WriteRun.finish
    rw [contentAfter_append]
    split
    · rename_i heq
      rw [← heq]
      rfl
    · rename_i hne
      refine h.current q fun c request' stage'' hc => ?_
      by_cases heq : c = call
      · subst heq
        rw [hold] at hc
        cases hc
        exact absurd rfl hne
      · exact hq c request' stage'' ((ht c).trans ((if_neg heq).trans hc))
  active c request' q stage'' hc hactive := by
    rw [ht c] at hc
    by_cases heq : c = call
    · rw [if_pos heq] at hc
      cases hc
      cases hactive
    · rw [if_neg heq] at hc
      have hne : path ≠ q := by
        rintro rfl
        rw [halone c request' stage'' heq hc] at hactive
        cases hactive
      unfold WriteRun.finish
      rw [contentAfter_append, if_neg hne]
      exact h.active c request' q stage'' hc hactive
  recorded record hrecord := by
    rw [ht]
    rcases mem_append.mp hrecord with hrecord | hrecord
    · have hr := h.recorded record hrecord
      rw [if_neg]
      · exact hr
      · rintro heq
        rw [heq, hold] at hr
        cases hr
        cases hstage
    · rw [mem_singleton.mp hrecord, if_pos rfl]
  distinct := by
    unfold WriteRun.finish
    rw [map_append, map_singleton, nodup_append]
    refine ⟨h.distinct, nodup_singleton _, fun c hc c' hc' => ?_⟩
    rw [mem_singleton.mp hc']
    rintro rfl
    obtain ⟨record, hrecord, heq⟩ := mem_map.mp hc
    have hr := h.recorded record hrecord
    rw [heq, hold] at hr
    cases hr
    cases hstage
  acknowledged c request' q hc := by
    rw [ht c] at hc
    by_cases heq : c = call
    · exact ⟨_, mem_append_right _ (mem_singleton.mpr rfl), heq.symm⟩
    · rw [if_neg heq] at hc
      obtain ⟨record, hrecord, hrc⟩ := h.acknowledged c request' q hc
      exact ⟨record, mem_append_left _ hrecord, hrc⟩

theorem Serialized.alone_of_unfinished (h : Serialized s.runtime) {phase : Phase}
    (hcall : s.runtime.calls[call]? = some ⟨request, phase, some ⟨path, stage⟩⟩)
    (hstage : ∀ result, stage ≠ .finished result) (c : ℕ) (request' : WriteRequest)
    (stage'' : Stage) (hne : c ≠ call)
    (hc : taskOf s.runtime c = some (request', ⟨path, stage''⟩)) : stage''.active = false := by
  by_contra hactive
  obtain ⟨phase', hc⟩ := exists_of_taskOf hc
  refine hne (h.eq_of_unfinished hc hcall rfl rfl (fun result hresult => ?_) hstage)
  rw [hresult] at hactive
  exact hactive rfl

/-- **One step keeps the files as the history has them.** -/
theorem replayed_step {e : WriteEvent} (h : Replayed files s) (hs : Serialized s.runtime)
    (hstep : WriteStep s e t) : Replayed files t := by
  cases hstep with
  | @request request =>
    refine h.frame rfl rfl fun c => ((changes_request request).taskOf c).trans ?_
    split
    · rename_i hc
      unfold taskOf
      rw [hc, List.getElem?_eq_none (le_refl _)]
      rfl
    · rfl
  | resolved hcall | unresolved hcall => exact h.frame rfl rfl fun c => taskOf_setPhase _ hcall c
  | prune hcall _ =>
    exact h.frame rfl rfl fun c => taskOf_setPhase (s := s.runtime.prune) _ hcall c
  | @lookUp call request path semaphore runtime hcall hlook =>
    have hsame : runtime.calls = s.runtime.calls ∧ runtime.files = s.runtime.files := by
      unfold pathPermit at hlook
      split at hlook <;> cases hlook <;> exact ⟨rfl, rfl⟩
    refine h.frame rfl hsame.2 fun c => ?_
    have htask := taskOf_setPhase (s := runtime) (.waiting path semaphore)
      (hsame.1 ▸ hcall) c
    refine htask.trans ?_
    unfold taskOf
    rw [hsame.1]
  | @acquire call request path semaphore hcall _ =>
    exact h.frame rfl rfl fun c => taskOf_setPhase (s := s.runtime.take semaphore) _ hcall c
  | @spawn call request path semaphore hcall =>
    have hphase := changes_setPhase (.running path semaphore) hcall
    refine h.idle rfl rfl ((hphase.trans (changes_setTask hphase.get)).taskOf)
      (fun task htask => ?_) rfl (fun heq => (by cases heq))
    rw [taskOf_of_get hcall] at htask
    cases htask
  | @reached call request phase path hcall =>
    have hidle : s.runtime.files path = contentAfter files s.history path := by
      refine h.current path fun c request' stage hc => ?_
      by_cases heq : c = call
      · subst heq
        rw [taskOf_of_get hcall] at hc
        cases hc
        rfl
      · exact hs.alone_of_unfinished hcall (fun _ h => (by cases h)) c request' stage heq hc
    exact h.advance rfl (fun _ _ => rfl) (changes_setTask hcall).taskOf (taskOf_of_get hcall)
      (fun _ h => (by cases h)) (hs.alone_of_unfinished hcall fun _ h => (by cases h)) rfl hidle
  | @moved call request phase path other hcall _ | @lost call request phase path message hcall =>
    refine h.idle rfl rfl (changes_setTask hcall).taskOf (fun task htask => ?_) rfl
      (fun heq => (by cases heq))
    rw [taskOf_of_get hcall] at htask
    cases htask
    rfl
  | @read call request phase path content hcall hread =>
    have hholds : s.runtime.files path = contentAfter files s.history path :=
      h.active call request path .reading (taskOf_of_get hcall) rfl
    exact h.advance rfl (fun _ _ => rfl) (changes_setTask hcall).taskOf (taskOf_of_get hcall)
      (fun _ h => (by cases h)) (hs.alone_of_unfinished hcall fun _ h => (by cases h)) rfl
      ⟨hholds ▸ hread, hholds⟩
  | @refused call request phase path message hcall hread =>
    exact h.finish (changes_setTask hcall).taskOf (taskOf_of_get hcall) rfl
      (hs.alone_of_unfinished hcall fun _ h => (by cases h))
      ⟨.reading, h.active call request path .reading (taskOf_of_get hcall) rfl⟩
  | @openFile call request phase path content hcall _ =>
    obtain ⟨hcontent, hfile⟩ := h.active call request path (.opening content)
      (taskOf_of_get hcall) rfl
    refine h.advance rfl (fun q hq => update_of_ne hq _ _)
      ((changes_setTask (s := s.runtime.setFile path _) hcall).of_calls rfl).taskOf
      (taskOf_of_get hcall) (fun _ h => (by cases h))
      (hs.alone_of_unfinished hcall fun _ h => (by cases h)) rfl
      ⟨hcontent, Nat.zero_le _, ?_⟩
    refine (update_self ..).trans ?_
    rw [hfile]
    rfl
  | @write call count request phase path content written hcall hle =>
    obtain ⟨hcontent, -, hfile⟩ := h.active call request path (.writing content written)
      (taskOf_of_get hcall) rfl
    refine h.advance rfl (fun q hq => update_of_ne hq _ _)
      ((changes_setTask (s := s.runtime.setFile path _) hcall).of_calls rfl).taskOf
      (taskOf_of_get hcall) (fun _ h => (by cases h))
      (hs.alone_of_unfinished hcall fun _ h => (by cases h)) rfl ⟨hcontent, hle, ?_⟩
    refine (update_self ..).trans ?_
    rw [hfile, Option.getD_some, writeAt_partial hle]
  | @truncate call request phase path content hcall =>
    obtain ⟨hcontent, -, hfile⟩ := h.active call request path (.writing content content.length)
      (taskOf_of_get hcall) rfl
    refine h.advance rfl (fun q hq => update_of_ne hq _ _)
      ((changes_setTask (s := s.runtime.setFile path _) hcall).of_calls rfl).taskOf
      (taskOf_of_get hcall) (fun _ h => (by cases h))
      (hs.alone_of_unfinished hcall fun _ h => (by cases h)) rfl ⟨hcontent, ?_⟩
    refine (update_self ..).trans ?_
    rw [hfile, Option.getD_some, setLen_partial]
  | @sync call request phase path content hcall =>
    exact h.finish (changes_setTask hcall).taskOf (taskOf_of_get hcall) rfl
      (hs.alone_of_unfinished hcall fun _ h => (by cases h))
      ⟨content, h.active call request path (.syncing content) (taskOf_of_get hcall) rfl⟩
  | @fail call request phase path stage message hcall hactive =>
    refine h.finish (changes_setTask hcall).taskOf (taskOf_of_get hcall) hactive
      (hs.alone_of_unfinished hcall fun result heq => ?_)
      ⟨stage, h.active call request path stage (taskOf_of_get hcall) hactive⟩
    rw [heq] at hactive
    cases hactive
  | @reply call request path semaphore task result hcall _ =>
    exact h.frame rfl (files_release ..) fun c => (taskOf_setPhase
      (s := s.runtime.release (.running path semaphore)) _
        ((calls_release ..).symm ▸ hcall) c).trans
        (taskOf_congr (calls_release ..) c)
  | @drop call entry hcall _ =>
    exact h.frame rfl (files_release ..) fun c => (taskOf_setPhase
      (s := s.runtime.release entry.phase) _ ((calls_release ..).symm ▸ hcall) c).trans
        (taskOf_congr (calls_release ..) c)

end Replayed

/-! ## The whole run -/

/-- A call that returned without an error has a task that finished so. -/
def Answered (s : WriteRuntime) : Prop :=
  ∀ (c : ℕ) (call : WriteCall), s.calls[c]? = some call → call.phase = .returned (.ok ()) →
    ∃ path, call.task = some ⟨path, .finished (.ok ())⟩

section Answered

variable {s t : WriteRuntime} {call : ℕ} {entry : WriteCall}

theorem Answered.change (h : Answered s) (ht : Changes s t call entry)
    (hentry : entry.phase = .returned (.ok ()) →
      ∃ path, entry.task = some ⟨path, .finished (.ok ())⟩) : Answered t := by
  intro c e hc hphase
  rcases ht.cases hc with ⟨-, rfl⟩ | ⟨-, hold⟩
  · exact hentry hphase
  · exact h c e hold hphase

theorem Answered.setTask (h : Answered s) (hold : s.calls[call]? = some old)
    (htask : old.task = some ⟨path, stage⟩) (hstage : ∀ result, stage ≠ .finished result) :
    Answered ({ s with files }.setTask call path stage') := by
  refine h.change ((changes_setTask (s := { s with files }) hold).of_calls rfl) fun hphase => ?_
  obtain ⟨path', hfinished⟩ := h call old hold hphase
  rw [htask] at hfinished
  cases hfinished
  exact absurd rfl (hstage _)

end Answered

theorem answered_step {s t : WriteRun} {e : WriteEvent} (h : Answered s.runtime)
    (hstep : WriteStep s e t) : Answered t.runtime := by
  cases hstep with
  | @request request => exact h.change (changes_request request) fun hphase => (by cases hphase)
  | resolved hcall | unresolved hcall =>
    exact h.change (changes_setPhase _ hcall) fun hphase => (by cases hphase)
  | prune hcall _ =>
    exact h.change ((changes_setPhase (s := s.runtime.prune) _ hcall).of_calls rfl)
      fun hphase => (by cases hphase)
  | @lookUp call request path semaphore runtime hcall hlook =>
    have hsame : runtime.calls = s.runtime.calls := by
      unfold pathPermit at hlook
      split at hlook <;> cases hlook <;> rfl
    exact h.change ((changes_setPhase (s := runtime) _ (hsame ▸ hcall)).of_calls hsame)
      fun hphase => (by cases hphase)
  | @acquire call request path semaphore hcall _ =>
    exact h.change ((changes_setPhase (s := s.runtime.take semaphore) _ hcall).of_calls rfl)
      fun hphase => (by cases hphase)
  | @spawn call request path semaphore hcall =>
    have hphase := changes_setPhase (.running path semaphore) hcall
    exact h.change (hphase.trans (changes_setTask hphase.get)) fun hphase => (by cases hphase)
  | reached hcall | moved hcall _ | lost hcall | read hcall _ | refused hcall _
  | openFile hcall _ | write hcall _ | truncate hcall | sync hcall =>
    exact h.setTask hcall rfl fun _ heq => (by cases heq)
  | fail hcall hactive =>
    refine h.setTask hcall rfl fun _ heq => ?_
    rw [heq] at hactive
    cases hactive
  | @reply call request path semaphore task result hcall hfinished =>
    refine h.change ((changes_setPhase (s := s.runtime.release (.running path semaphore)) _
      ((calls_release ..).symm ▸ hcall)).of_calls (calls_release ..)) fun hphase => ?_
    cases hphase
    obtain ⟨path', stage⟩ := task
    obtain rfl : stage = .finished (.ok ()) := hfinished
    exact ⟨path', rfl⟩
  | @drop call entry hcall _ =>
    exact h.change ((changes_setPhase (s := s.runtime.release entry.phase) _
      ((calls_release ..).symm ▸ hcall)).of_calls (calls_release ..))
      fun hphase => (by cases hphase)

/-- **Writes to one file are serialized** over every run in which no client drops a call whose
task is not finished: at most one task works on a path; the tasks that reached their files ran one
after the other, each once; a file that no task works on is as they left it; and what was
acknowledged is among them. -/
theorem writes_serialized {files : Path → Option Bytes} {es : List WriteEvent} {s : WriteRun}
    (hrun : Run (fun s e t => WriteStep s e t ∧ KeepsTasks s e) (.start files) es s) :
    (∀ c c' request request' path stage stage',
      taskOf s.runtime c = some (request, ⟨path, stage⟩) → stage.active = true →
      taskOf s.runtime c' = some (request', ⟨path, stage'⟩) → stage'.active = true → c = c') ∧
    Sequential files s.history ∧
    (s.history.map WriteRecord.call).Nodup ∧
    (∀ path, (∀ c request stage, taskOf s.runtime c = some (request, ⟨path, stage⟩) →
      stage.active = false) → s.runtime.files path = contentAfter files s.history path) ∧
    ∀ (c : ℕ) (call : WriteCall), s.runtime.calls[c]? = some call →
      call.phase = .returned (.ok ()) →
      ∃ record ∈ s.history, record.call = c ∧ record.request = call.request ∧
        record.result = .ok () := by
  obtain ⟨hs, hanswered, h⟩ : Serialized s.runtime ∧ Answered s.runtime ∧ Replayed files s := by
    refine Run.invariant (P := fun s => Serialized s.runtime ∧ Answered s.runtime ∧
      Replayed files s) (fun s e t hs hstep => ?_) hrun ⟨?_, ?_, ?_⟩
    · exact ⟨serialized_step hs.1 hstep.1 hstep.2, answered_step hs.2.1 hstep.1,
        replayed_step hs.2.2 hs.1 hstep.1⟩
    · constructor
      · intro c call path semaphore hc
        cases hc
      · intro c c' call call' semaphore hc
        cases hc
      · intro c call semaphore hc
        cases hc
      · exact fun _ => Nat.zero_le _
      · intro c call path stage hc
        cases hc
    · intro c call hc
      cases hc
    · refine ⟨.nil, fun _ _ => rfl, ?_, fun _ hr => absurd hr List.not_mem_nil,
        List.nodup_nil, ?_⟩
      · intro c request path stage hc
        cases hc
      · intro c request path hc
        cases hc
  refine ⟨fun c c' request request' path stage stage' hc hactive hc' hactive' => ?_,
    h.sequential, h.distinct, h.current, fun c call hc hphase => ?_⟩
  · by_contra hne
    obtain ⟨phase', hcall'⟩ := exists_of_taskOf hc'
    have hidle := hs.alone_of_unfinished hcall'
      (fun result heq => (by rw [heq] at hactive'; cases hactive')) c request stage hne hc
    rw [hactive] at hidle
    cases hidle
  · obtain ⟨path, htask⟩ := hanswered c call hc hphase
    have htaskOf : taskOf s.runtime c = some (call.request, ⟨path, .finished (.ok ())⟩) := by
      rw [taskOf_of_get hc, htask]
      rfl
    obtain ⟨record, hrecord, rfl⟩ := h.acknowledged c call.request path htaskOf
    have hrecorded := h.recorded record hrecord
    rw [htaskOf] at hrecorded
    obtain ⟨hrequest, htask⟩ := Prod.mk.inj (Option.some.inj hrecorded)
    obtain ⟨-, hresult⟩ := Task.mk.inj htask
    exact ⟨record, hrecord, rfl, hrequest.symm, (Stage.finished.inj hresult).symm⟩

theorem readUtf8_encode (path : Path) (text : String) :
    readUtf8 path (some (encode text)) = .ok text := by
  have hdecode : String.fromUTF8? ⟨text.toUTF8.data.toList.toArray⟩ = some text := by
    unfold String.fromUTF8?
    rw [Array.toArray_toList]
    exact dif_pos text.isValidUTF8
  unfold readUtf8 encode
  rw [Option.bind_some, hdecode]

theorem newContent_edit (path : Path) {text edited : String} {edit : EditFileOperation}
    (h : edit.apply text = .ok edited) :
    newContent path (some (encode text)) (.edit edit) = .ok (encode edited) := by
  simp only [newContent, readUtf8_encode, ok_bind, h]
  rfl

def notes : Path → Option Bytes := fun _ => some (encode "alpha beta")

def alphaEdit : WriteRequest := ⟨"/notes.txt", .edit ⟨"alpha", "ALPHA", false⟩⟩

def betaEdit : WriteRequest := ⟨"/notes.txt", .edit ⟨"beta", "BETA", false⟩⟩

/-- A call comes to the permit of its file. -/
def come (request : WriteRequest) (call : ℕ) : List WriteEvent :=
  [.request request, .resolve call (.ok "/notes.txt"), .prune call, .lookUp call]

/-- A call takes the permit and reads its file. -/
def enter (call : ℕ) : List WriteEvent :=
  [.acquire call, .spawn call, .resolveAgain call (.ok "/notes.txt"), .read call]

/-- A call comes to its file and reads it. -/
def arrive (request : WriteRequest) (call : ℕ) : List WriteEvent :=
  come request call ++ enter call

def persist (call : ℕ) : List WriteEvent :=
  [.openFile call, .write call 10, .truncate call, .sync call]

/-- While one call edits the file, two others wait for it; the client of one of these drops it. -/
def twoEdits : List WriteEvent :=
  arrive alphaEdit 0 ++ come betaEdit 1 ++ come betaEdit 2 ++ [.drop 2] ++ persist 0 ++ [.reply 0] ++
    enter 1 ++ persist 1 ++ [.reply 1]

theorem writes_serialized_alphaEdit : ∃ s,
    Run (fun s e t => WriteStep s e t ∧ KeepsTasks s e) (.start notes) twoEdits s ∧
    Sequential notes s.history ∧ (s.history.map WriteRecord.call).Nodup ∧
    (∃ record ∈ s.history, record.call = 0 ∧ record.request = alphaEdit ∧
      record.result = .ok ()) ∧
    ∃ record ∈ s.history, record.call = 1 ∧ record.request = betaEdit ∧ record.result = .ok () := by
  have halpha : EditFileOperation.apply ⟨"alpha", "ALPHA", false⟩ "alpha beta" =
      .ok "ALPHA beta" := by
    decide
  have hbeta : EditFileOperation.apply ⟨"beta", "BETA", false⟩ "ALPHA beta" =
      .ok "ALPHA BETA" := by
    decide
  have hrun : ∃ s, Run (fun s e t => WriteStep s e t ∧ KeepsTasks s e) (.start notes) twoEdits s ∧
      (∃ task, s.runtime.calls[0]? = some ⟨alphaEdit, .returned (.ok ()), task⟩) ∧
      ∃ task, s.runtime.calls[1]? = some ⟨betaEdit, .returned (.ok ()), task⟩ := by
    refine ⟨_, .cons ⟨.request, trivial⟩ <| .cons ⟨.resolved rfl, trivial⟩ <|
      .cons ⟨.prune rfl (by decide), trivial⟩ <| .cons ⟨.lookUp rfl rfl, trivial⟩ <|
      .cons ⟨.acquire rfl (by decide), trivial⟩ <| .cons ⟨.spawn rfl, trivial⟩ <|
      .cons ⟨.reached rfl, trivial⟩ <|
      .cons ⟨.read rfl (newContent_edit "/notes.txt" halpha), trivial⟩ <|
      .cons ⟨.request, trivial⟩ <| .cons ⟨.resolved rfl, trivial⟩ <|
      .cons ⟨.prune rfl (by decide), trivial⟩ <| .cons ⟨.lookUp rfl rfl, trivial⟩ <|
      .cons ⟨.request, trivial⟩ <| .cons ⟨.resolved rfl, trivial⟩ <|
      .cons ⟨.prune rfl (by decide), trivial⟩ <| .cons ⟨.lookUp rfl rfl, trivial⟩ <|
      .cons ⟨.drop rfl rfl, fun _ _ _ h => nomatch h⟩ <|
      .cons ⟨.openFile rfl (.inl rfl), trivial⟩ <| .cons ⟨.write rfl (by decide), trivial⟩ <|
      .cons ⟨.truncate rfl, trivial⟩ <| .cons ⟨.sync rfl, trivial⟩ <|
      .cons ⟨.reply rfl rfl, trivial⟩ <|
      .cons ⟨.acquire rfl (by decide), trivial⟩ <| .cons ⟨.spawn rfl, trivial⟩ <|
      .cons ⟨.reached rfl, trivial⟩ <|
      .cons ⟨.read rfl (newContent_edit "/notes.txt" hbeta), trivial⟩ <|
      .cons ⟨.openFile rfl (.inl rfl), trivial⟩ <| .cons ⟨.write rfl (by decide), trivial⟩ <|
      .cons ⟨.truncate rfl, trivial⟩ <| .cons ⟨.sync rfl, trivial⟩ <|
      .cons ⟨.reply rfl rfl, trivial⟩ <| .nil _, ⟨_, rfl⟩, _, rfl⟩
  obtain ⟨s, hrun, ⟨task, halphaCall⟩, task', hbetaCall⟩ := hrun
  obtain ⟨-, hsequential, hdistinct, -, hacknowledged⟩ := writes_serialized hrun
  exact ⟨s, hrun, hsequential, hdistinct, hacknowledged 0 _ halphaCall rfl,
    hacknowledged 1 _ hbetaCall rfl⟩

/-- The client of the first call drops it when its task has read the file. -/
def lostEdit : List WriteEvent :=
  arrive alphaEdit 0 ++ [.drop 0] ++ arrive betaEdit 1 ++ persist 1 ++ [.reply 1] ++ persist 0

theorem lostEdit_not_sequential : ∃ s, Run WriteStep (.start notes) lostEdit s ∧
    (∃ task, s.runtime.calls[1]? = some ⟨betaEdit, .returned (.ok ()), task⟩) ∧
    s.runtime.files "/notes.txt" = some (encode "ALPHA beta") ∧
    ¬Sequential notes s.history := by
  have halpha : EditFileOperation.apply ⟨"alpha", "ALPHA", false⟩ "alpha beta" =
      .ok "ALPHA beta" := by
    decide
  have hbeta : EditFileOperation.apply ⟨"beta", "BETA", false⟩ "alpha beta" =
      .ok "alpha BETA" := by
    decide
  have hboth : EditFileOperation.apply ⟨"alpha", "ALPHA", false⟩ "alpha BETA" =
      .ok "ALPHA BETA" := by
    decide
  refine ⟨_, .cons .request <| .cons (.resolved rfl) <| .cons (.prune rfl (by decide)) <|
    .cons (.lookUp rfl rfl) <| .cons (.acquire rfl (by decide)) <| .cons (.spawn rfl) <|
    .cons (.reached rfl) <| .cons (.read rfl (newContent_edit "/notes.txt" halpha)) <|
    .cons (.drop rfl rfl) <|
    .cons .request <| .cons (.resolved rfl) <| .cons (.prune rfl (by decide)) <|
    .cons (.lookUp rfl rfl) <| .cons (.acquire rfl (by decide)) <| .cons (.spawn rfl) <|
    .cons (.reached rfl) <| .cons (.read rfl (newContent_edit "/notes.txt" hbeta)) <|
    .cons (.openFile rfl (.inl rfl)) <| .cons (.write rfl (by decide)) <|
    .cons (.truncate rfl) <| .cons (.sync rfl) <| .cons (.reply rfl rfl) <|
    .cons (.openFile rfl (.inl rfl)) <| .cons (.write rfl (by decide)) <|
    .cons (.truncate rfl) <| .cons (.sync rfl) <| .nil _, ⟨_, rfl⟩, ?_, ?_⟩
  · rfl
  · intro h
    have hhistory : Sequential notes
        ([⟨1, "/notes.txt", betaEdit, .ok (), some (encode "alpha BETA")⟩] ++
          [⟨0, "/notes.txt", alphaEdit, .ok (), some (encode "ALPHA beta")⟩]) := h
    have hlast : Leaves "/notes.txt" alphaEdit.operation (some (encode "alpha BETA")) (.ok ())
        (some (encode "ALPHA beta")) := sequential_append_singleton hhistory
    obtain ⟨content, hnew, hcontent⟩ := hlast
    rw [show alphaEdit.operation = .edit ⟨"alpha", "ALPHA", false⟩ from rfl,
      newContent_edit "/notes.txt" hboth] at hnew
    obtain rfl := Except.ok.inj hnew
    exact absurd (Option.some.inj hcontent) (by decide)

end Chelix.ToolsService
