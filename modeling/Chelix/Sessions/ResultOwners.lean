import Chelix.Sessions.ToolResults

/-!
# Owners of tool results

As long as the keys of a run are flattened to names of their own, what lies in the directory of a
call is what the operations on its session and on this call put there.

* **`results_owned`**: they do after every run with such keys.
-/

namespace Chelix.Sessions

open Chelix.Library List
open Chelix.Library.Path (Component Segment resolve)

/-! ## Operations -/

inductive ResultOperation where
  | persist (sessionKey callId raw : List Char)
  | persistText (sessionKey callId content : List Char)
  | clear (sessionKey : List Char)
  deriving DecidableEq

namespace ResultOperation

def session : ResultOperation → List Char
  | .persist sessionKey _ _ => sessionKey
  | .persistText sessionKey _ _ => sessionKey
  | .clear sessionKey => sessionKey

def call : ResultOperation → Option (List Char)
  | .persist _ callId _ => some callId
  | .persistText _ callId _ => some callId
  | .clear _ => none

variable (codec : ResultCodec) (sessionsDir : Path)

/-- Whether an operation succeeds, and the disk after it. -/
def perform (disk : Disk) : ResultOperation → Bool × Disk
  | .persist sessionKey callId raw =>
    let (result, disk) := Sessions.persist codec (.new sessionsDir) disk sessionKey callId raw
    (result.isOk, disk)
  | .persistText sessionKey callId content =>
    let (result, disk) := Sessions.persistText (.new sessionsDir) disk sessionKey callId content
    (result.isOk, disk)
  | .clear sessionKey =>
    let (result, disk) := Sessions.clear sessionsDir disk sessionKey
    (result.isOk, disk)

end ResultOperation

/-- An operation with its outcome. -/
structure ResultEvent where
  operation : ResultOperation
  done : Bool
  deriving DecidableEq

def ResultStep (codec : ResultCodec) (sessionsDir : Path) (disk : Disk) (event : ResultEvent)
    (disk' : Disk) : Prop :=
  event.operation.perform codec sessionsDir disk = (event.done, disk')

/-! ## Results by their owners -/

abbrev Results := List Char → List Char → ResultFile → Option (List Char)

variable {s c : List Char} {results : Results}

namespace Results

def empty : Results := fun _ _ _ => none

/-- A file that is not there yet. -/
def keep (sessionKey callId : List Char) (file : ResultFile) (content : List Char)
    (results : Results) : Results := fun s c f =>
  if s = sessionKey ∧ c = callId ∧ f = file then (results s c f).or (some content)
  else results s c f

def remove (sessionKey : List Char) (results : Results) : Results := fun s c f =>
  if s = sessionKey then none else results s c f

/-- The results after an operation. -/
def step (codec : ResultCodec) (results : Results) (event : ResultEvent) : Results :=
  if !event.done then results
  else match event.operation with
    | .persist sessionKey callId raw =>
      match resultFiles codec raw with
      | (file, content, none) => results.keep sessionKey callId file content
      | (file, content, some schema) =>
        (results.keep sessionKey callId file content).keep sessionKey callId .schemaJson schema
    | .persistText sessionKey callId content =>
      results.keep sessionKey callId .contentTxt content
    | .clear sessionKey => results.remove sessionKey

def after (codec : ResultCodec) (events : List ResultEvent) : Results :=
  events.foldl (step codec) empty

/-- Whether an event is about a call, or the session of it. -/
def concerns (s c : List Char) (event : ResultEvent) : Bool :=
  event.operation.session = s && event.operation.call.all (· = c)

theorem keep_other {s' c' : List Char} (h : ¬(s = s' ∧ c = c')) (file : ResultFile)
    (content : List Char) (results : Results) :
    keep s' c' file content results s c = results s c := by
  funext f
  exact if_neg fun heq => h ⟨heq.1, heq.2.1⟩

variable {results' : Results}

theorem keep_congr (h : results s c = results' s c) (s' c' : List Char) (file : ResultFile)
    (content : List Char) :
    keep s' c' file content results s c = keep s' c' file content results' s c := by
  funext f
  unfold keep
  rw [h]

theorem remove_congr (h : results s c = results' s c) (s' : List Char) :
    remove s' results s c = remove s' results' s c := by
  funext f
  unfold remove
  rw [h]

variable {codec : ResultCodec}

theorem step_other {event : ResultEvent} (h : concerns s c event = false) (results : Results) :
    step codec results event s c = results s c := by
  obtain ⟨operation, done⟩ := event
  unfold concerns at h
  rw [Bool.and_eq_false_iff, decide_eq_false_iff_not] at h
  cases done with
  | false => rfl
  | true =>
    cases operation with
    | persist s' c' raw =>
      have hother : ¬(s = s' ∧ c = c') := by
        rintro ⟨rfl, rfl⟩
        rcases h with h | h
        · exact h rfl
        · simp [ResultOperation.call] at h
      unfold step
      rcases hfiles : resultFiles codec raw with ⟨file, content, schema⟩
      cases schema with
      | none =>
        simp only [hfiles]
        exact keep_other hother file content results
      | some schema =>
        simp only [hfiles]
        exact (keep_other hother _ schema _).trans (keep_other hother file content results)
    | persistText s' c' content =>
      refine keep_other ?_ .contentTxt content results
      rintro ⟨rfl, rfl⟩
      rcases h with h | h
      · exact h rfl
      · simp [ResultOperation.call] at h
    | clear s' =>
      funext f
      refine if_neg ?_
      rintro rfl
      rcases h with h | h
      · exact h rfl
      · cases h

theorem step_congr (h : results s c = results' s c) (event : ResultEvent) :
    step codec results event s c = step codec results' event s c := by
  obtain ⟨operation, done⟩ := event
  cases done with
  | false => exact h
  | true =>
    cases operation with
    | persist s' c' raw =>
      unfold step
      rcases hfiles : resultFiles codec raw with ⟨file, content, schema⟩
      cases schema with
      | none =>
        simp only [hfiles]
        exact keep_congr h s' c' file content
      | some schema =>
        simp only [hfiles]
        exact keep_congr (keep_congr h s' c' file content) s' c' .schemaJson schema
    | persistText s' c' content => exact keep_congr h s' c' .contentTxt content
    | clear s' => exact remove_congr h s'

theorem after_filter (s c : List Char) (events : List ResultEvent) :
    after codec events s c = after codec (events.filter (concerns s c)) s c := by
  have hfold : ∀ (events : List ResultEvent) (results results' : Results),
      results s c = results' s c →
      events.foldl (step codec) results s c =
        (events.filter (concerns s c)).foldl (step codec) results' s c := by
    intro events
    induction events with
    | nil => exact fun _ _ h => h
    | cons event events ih =>
      intro results results' h
      cases hconcerns : concerns s c event with
      | true =>
        rw [filter_cons_of_pos hconcerns]
        exact ih _ _ (step_congr h event)
      | false =>
        rw [filter_cons_of_neg (Bool.eq_false_iff.mp hconcerns)]
        exact ih _ _ ((step_other hconcerns results).trans h)
  exact hfold events empty empty rfl

end Results

/-! ## Names -/

/-- A name that does not lead elsewhere. -/
def Proper (key : List Char) : Prop :=
  sanitizePathComponent key ≠ ['.'] ∧ sanitizePathComponent key ≠ ['.', '.']

instance (key : List Char) : Decidable (Proper key) := inferInstanceAs (Decidable (_ ∧ _))

/-- The keys and ids of a run are flattened to names of their own, and no media directory that is
cleared is above or in the directory of the results. -/
structure Names (sessionsDir : Path) (events : List ResultEvent) : Prop where
  session : ∀ event ∈ events, Proper event.operation.session
  call : ∀ event ∈ events, ∀ c ∈ event.operation.call, Proper c
  sessions : ∀ first ∈ events, ∀ second ∈ events,
    sanitizePathComponent first.operation.session =
      sanitizePathComponent second.operation.session →
    first.operation.session = second.operation.session
  calls : ∀ first ∈ events, ∀ second ∈ events,
    first.operation.session = second.operation.session →
    ∀ c ∈ first.operation.call, ∀ d ∈ second.operation.call,
      sanitizePathComponent c = sanitizePathComponent d → c = d
  media : ∀ event ∈ events, ∀ key, event.operation = .clear key →
    ¬Path.Overlaps (mediaDirFor sessionsDir key) (ToolResultStore.new sessionsDir).baseDir

/-- A call of a session that a run writes. -/
def Called (events : List ResultEvent) (s c : List Char) : Prop :=
  ∃ event ∈ events, event.operation.session = s ∧ event.operation.call = some c

/-! ## Places -/

theorem segment_sanitizePathComponent {key : List Char} (h : Proper key) :
    Segment (sanitizePathComponent key) where
  noSlash := by
    unfold sanitizePathComponent
    split
    · decide
    · intro hmem
      obtain ⟨c, -, hc⟩ := mem_map.mp hmem
      split at hc
      · next hkeep =>
        subst hc
        exact absurd hkeep (by decide)
      · exact absurd hc (by decide)
  component := by
    have hne : sanitizePathComponent key ≠ [] := by
      unfold sanitizePathComponent
      split
      · decide
      · next hnil => exact fun hmap => hnil (map_eq_nil_iff.mp hmap)
    unfold Path.segmentComponent
    rw [if_neg (not_or.mpr ⟨hne, h.1⟩), if_neg h.2]

theorem segment_name (file : ResultFile) : Segment file.name := by
  cases file <;> exact ⟨by decide, by decide⟩

theorem name_injective : Function.Injective ResultFile.name := by
  intro f g h
  cases f <;> cases g <;> first | rfl | exact absurd h (by decide)

section Places

variable (sessionsDir : Path) (s c : List Char)

def basePlace : List Component := resolve (ToolResultStore.new sessionsDir).baseDir

def sessionPlace : List Component :=
  basePlace sessionsDir ++ [.normal (sanitizePathComponent s)]

def callPlace : List Component :=
  sessionPlace sessionsDir s ++ [.normal (sanitizePathComponent c)]

def resultPlace (file : ResultFile) : List Component :=
  callPlace sessionsDir s c ++ [.normal file.name]

variable {sessionsDir s c}

theorem resolve_sessionDir (hs : Proper s) :
    resolve ((ToolResultStore.new sessionsDir).sessionDir s) = sessionPlace sessionsDir s :=
  Path.resolve_join _ (segment_sanitizePathComponent hs)

theorem resolve_callDir (hs : Proper s) (hc : Proper c) :
    resolve ((ToolResultStore.new sessionsDir).callDir s c) = callPlace sessionsDir s c := by
  unfold ToolResultStore.callDir callPlace
  rw [Path.resolve_join _ (segment_sanitizePathComponent hc), resolve_sessionDir hs]

theorem resolve_resultPath (hs : Proper s) (hc : Proper c) (file : ResultFile) :
    resolve ((ToolResultStore.new sessionsDir).resultPath s c file) =
      resultPlace sessionsDir s c file := by
  unfold ToolResultStore.resultPath resultPlace
  rw [Path.resolve_join _ (segment_name file), resolve_callDir hs hc]

theorem named_sessionDir (hs : Proper s) :
    Disk.named ((ToolResultStore.new sessionsDir).sessionDir s) = true := by
  unfold Disk.named ToolResultStore.sessionDir
  rw [Path.components_join _ (segment_sanitizePathComponent hs), List.getLast?_concat]

theorem basePlace_isPrefix_callPlace : basePlace sessionsDir <+: callPlace sessionsDir s c :=
  (prefix_append _ _).trans (prefix_append _ _)

variable (file : ResultFile)

theorem resultPlace_ne_nil : resultPlace sessionsDir s c file ≠ [] :=
  append_ne_nil_of_right_ne_nil _ (cons_ne_nil _ _)

theorem basePlace_isPrefix_resultPlace :
    basePlace sessionsDir <+: resultPlace sessionsDir s c file :=
  basePlace_isPrefix_callPlace.trans (prefix_append _ _)

theorem sessionPlace_isPrefix_resultPlace :
    sessionPlace sessionsDir s <+: resultPlace sessionsDir s c file :=
  (prefix_append _ _).trans (prefix_append _ _)

theorem length_callPlace :
    (callPlace sessionsDir s c).length = (basePlace sessionsDir).length + 2 := by
  simp [callPlace, sessionPlace]

theorem length_resultPlace :
    (resultPlace sessionsDir s c file).length = (basePlace sessionsDir).length + 3 := by
  simp [resultPlace, callPlace, sessionPlace]

theorem resultPlace_inj {t d : List Char} {f g : ResultFile}
    (h : resultPlace sessionsDir s c f = resultPlace sessionsDir t d g) :
    sanitizePathComponent s = sanitizePathComponent t ∧
      sanitizePathComponent c = sanitizePathComponent d ∧ f = g := by
  unfold resultPlace callPlace sessionPlace at h
  obtain ⟨h, hname⟩ := append_inj' h rfl
  obtain ⟨h, hcall⟩ := append_inj' h rfl
  obtain ⟨-, hsession⟩ := append_inj' h rfl
  simp only [List.cons.injEq, Component.normal.injEq, and_true] at hname hcall hsession
  exact ⟨hsession, hcall, name_injective hname⟩

theorem sanitize_eq_of_isPrefix {t : List Char} {rest : List Component}
    (h : sessionPlace sessionsDir s <+: sessionPlace sessionsDir t ++ rest) :
    sanitizePathComponent s = sanitizePathComponent t := by
  have hsame : sessionPlace sessionsDir s = sessionPlace sessionsDir t := by
    refine (prefix_of_prefix_length_le h (prefix_append _ _) ?_).eq_of_length ?_
    · simp [sessionPlace]
    · simp [sessionPlace]
  unfold sessionPlace at hsame
  have hlast := append_cancel_left hsame
  simpa using hlast

end Places

/-! ## What the directories hold -/

/-- **The directories hold the results**, and nothing else. -/
structure Owned (sessionsDir : Path) (called : List Char → List Char → Prop) (disk : Disk)
    (results : Results) : Prop where
  /-- A result is in its file, below directories that exist. -/
  stored : ∀ {s c f x}, results s c f = some x → called s c ∧
    disk (resultPlace sessionsDir s c f) = some (.file x) ∧
    ∀ above, above <+: callPlace sessionsDir s c → disk.isDir above = true
  /-- A file is that of a result. -/
  files : ∀ {place x}, basePlace sessionsDir <+: place → place ≠ basePlace sessionsDir →
    disk place = some (.file x) →
    ∃ s c f, place = resultPlace sessionsDir s c f ∧ results s c f = some x
  /-- Directories are those of sessions and calls. -/
  dirs : ∀ {place}, basePlace sessionsDir <+: place → disk place = some .dir →
    place.length ≤ (basePlace sessionsDir).length + 2

namespace Owned

variable {sessionsDir : Path} {called : List Char → List Char → Prop} {disk disk' : Disk}
  {results : Results}

theorem of_eq (h : Owned sessionsDir called disk results)
    (heq : ∀ place, place <+: basePlace sessionsDir ∨ basePlace sessionsDir <+: place →
      disk' place = disk place) : Owned sessionsDir called disk' results where
  stored {s c f x} hresult := by
    obtain ⟨hcalled, hfile, habove⟩ := h.stored hresult
    refine ⟨hcalled, ?_, fun above hpre => ?_⟩
    · exact (heq _ (.inr (basePlace_isPrefix_resultPlace f))).trans hfile
    · have hnear := prefix_or_prefix_of_prefix hpre
        (basePlace_isPrefix_callPlace (s := s) (c := c))
      unfold Disk.isDir
      rw [heq _ hnear]
      exact habove above hpre
  files hbelow hne hfile := h.files hbelow hne (heq _ (.inr hbelow) ▸ hfile)
  dirs hbelow hdir := h.dirs hbelow (heq _ (.inr hbelow) ▸ hdir)

theorem createDirAll (h : Owned sessionsDir called disk results) {path : Path}
    (hpath : resolve path = callPlace sessionsDir s c)
    (hcreate : disk.createDirAll path = .ok disk') :
    Owned sessionsDir called disk' results where
  stored {t d f x} hresult := by
    obtain ⟨hcalled, hfile, habove⟩ := h.stored hresult
    refine ⟨hcalled, ?_, fun above hpre => Disk.isDir_mono (fun place hdir => ?_)
      (habove above hpre)⟩
    · rw [Disk.get_createDirAll hcreate, if_neg, hfile]
      rintro ⟨hpre, -⟩
      have hle := hpre.length_le
      rw [hpath, length_callPlace, length_resultPlace] at hle
      omega
    · rw [Disk.get_createDirAll hcreate, hdir, ite_self]
  files {place x} hbelow hne hfile := by
    rw [Disk.get_createDirAll hcreate] at hfile
    split at hfile
    · cases hfile
    · exact h.files hbelow hne hfile
  dirs {place} hbelow hdir := by
    rw [Disk.get_createDirAll hcreate] at hdir
    split at hdir
    · next hpre =>
      have hle := hpre.1.length_le
      rwa [hpath, length_callPlace] at hle
    · exact h.dirs hbelow hdir

/-- The places of two calls that are named alike are one. -/
def Distinct (called : List Char → List Char → Prop) : Prop :=
  ∀ {s c t d}, called s c → called t d →
    sanitizePathComponent s = sanitizePathComponent t →
    sanitizePathComponent c = sanitizePathComponent d → s = t ∧ c = d

theorem get (h : Owned sessionsDir called disk results) (hdistinct : Distinct called)
    (hcalled : called s c) (f : ResultFile) :
    disk (resultPlace sessionsDir s c f) = (results s c f).map .file := by
  cases hresult : results s c f with
  | some x => exact (h.stored hresult).2.1
  | none =>
    cases hentry : disk (resultPlace sessionsDir s c f) with
    | none => rfl
    | some entry =>
      have hlength : (resultPlace sessionsDir s c f).length = _ := length_resultPlace f
      cases entry with
      | dir =>
        have hle := h.dirs (basePlace_isPrefix_resultPlace f) hentry
        omega
      | file x =>
        have hne : resultPlace sessionsDir s c f ≠ basePlace sessionsDir := by
          intro heq
          rw [heq] at hlength
          omega
        obtain ⟨t, d, g, hplace, hother⟩ := h.files (basePlace_isPrefix_resultPlace f) hne hentry
        obtain ⟨hs, hc, rfl⟩ := resultPlace_inj hplace
        obtain ⟨rfl, rfl⟩ := hdistinct hcalled (h.stored hother).1 hs hc
        rw [hresult] at hother
        cases hother

theorem writeIfMissing (h : Owned sessionsDir called disk results) (hdistinct : Distinct called)
    (hcalled : called s c)
    (habove : ∀ above, above <+: callPlace sessionsDir s c → disk.isDir above = true)
    {f : ResultFile} {content : List Char} (hwrite : ∀ place, disk' place =
      if place = resultPlace sessionsDir s c f ∧ disk place = none then some (.file content)
      else disk place) : Owned sessionsDir called disk' (results.keep s c f content) := by
  have hkept : ∀ place entry, disk place = some entry → disk' place = some entry := by
    intro place entry hentry
    rw [hwrite, hentry, if_neg]
    rintro ⟨-, hnone⟩
    cases hnone
  refine ⟨fun {t d g x} hresult => ?_, fun {place x} hbelow hne hfile => ?_,
    fun {place} hbelow hdir => ?_⟩
  · unfold Results.keep at hresult
    split at hresult
    · next heq =>
      obtain ⟨rfl, rfl, rfl⟩ := heq
      refine ⟨hcalled, ?_, fun above hpre => Disk.isDir_mono (fun place hdir => hkept _ _ hdir)
        (habove above hpre)⟩
      cases hold : results t d g with
      | none =>
        rw [hold, Option.none_or] at hresult
        rw [hwrite, if_pos ⟨rfl, (h.get hdistinct hcalled g).trans (congrArg _ hold)⟩,
          Option.some.inj hresult]
      | some y =>
        rw [hold, Option.some_or] at hresult
        exact hkept _ _ ((h.stored hold).2.1.trans (congrArg (some ∘ Entry.file)
          (Option.some.inj hresult)))
    · obtain ⟨hcalled', hfile, habove'⟩ := h.stored hresult
      exact ⟨hcalled', hkept _ _ hfile, fun above hpre =>
        Disk.isDir_mono (fun place hdir => hkept _ _ hdir) (habove' above hpre)⟩
  · rw [hwrite] at hfile
    split at hfile
    · next heq =>
      obtain ⟨rfl, hnone⟩ := heq
      refine ⟨s, c, f, rfl, ?_⟩
      have hmissing : results s c f = none := by
        cases hold : results s c f with
        | none => rfl
        | some y =>
          rw [(h.stored hold).2.1] at hnone
          cases hnone
      unfold Results.keep
      rw [if_pos ⟨rfl, rfl, rfl⟩, hmissing, Option.none_or]
      exact congrArg some (Entry.file.inj (Option.some.inj hfile))
    · obtain ⟨t, d, g, hplace, hresult⟩ := h.files hbelow hne hfile
      refine ⟨t, d, g, hplace, ?_⟩
      unfold Results.keep
      rw [hresult, Option.some_or, ite_self]
  · rw [hwrite] at hdir
    split at hdir
    · cases hdir
    · exact h.dirs hbelow hdir

theorem remove_of_none (h : Owned sessionsDir called disk results)
    (hnone : ∀ c f, results s c f = none) : Owned sessionsDir called disk (results.remove s) := by
  have hsame : results.remove s = results := by
    funext t c f
    unfold Results.remove
    split
    · next heq => rw [heq, hnone]
    · rfl
  rw [hsame]
  exact h

theorem remove (h : Owned sessionsDir called disk results)
    (hdistinct : ∀ {t c}, called t c → sanitizePathComponent s = sanitizePathComponent t → s = t)
    (hremoved : ∀ place, disk' place =
      if sessionPlace sessionsDir s <+: place then none else disk place) :
    Owned sessionsDir called disk' (results.remove s) := by
  refine ⟨fun {t c f x} hresult => ?_, fun {place x} hbelow hne hfile => ?_,
    fun {place} hbelow hdir => ?_⟩
  · unfold Results.remove at hresult
    split at hresult
    · cases hresult
    · next hother =>
      obtain ⟨hcalled, hfile, habove⟩ := h.stored hresult
      have hleft : ∀ rest, ¬sessionPlace sessionsDir s <+: sessionPlace sessionsDir t ++ rest :=
        fun rest hpre =>
          hother (hdistinct hcalled (sanitize_eq_of_isPrefix hpre)).symm
      refine ⟨hcalled, ?_, fun above hpre => ?_⟩
      · rw [hremoved, if_neg, hfile]
        unfold resultPlace callPlace
        rw [append_assoc]
        exact hleft _
      · have hnot : ¬sessionPlace sessionsDir s <+: above := fun hbelow =>
          hleft _ (hbelow.trans hpre)
        unfold Disk.isDir
        rw [hremoved, if_neg hnot]
        exact habove above hpre
  · rw [hremoved] at hfile
    split at hfile
    · cases hfile
    · next hnot =>
      obtain ⟨t, c, f, rfl, hresult⟩ := h.files hbelow hne hfile
      refine ⟨t, c, f, rfl, ?_⟩
      unfold Results.remove
      rw [if_neg, hresult]
      rintro rfl
      exact hnot (sessionPlace_isPrefix_resultPlace f)
  · rw [hremoved] at hdir
    split at hdir
    · cases hdir
    · exact h.dirs hbelow hdir

theorem removeIfPresent (h : Owned sessionsDir called disk results) (hs : Proper s)
    (hdistinct : ∀ {t c}, called t c → sanitizePathComponent s = sanitizePathComponent t → s = t) :
    let after := Sessions.removeIfPresent disk ((ToolResultStore.new sessionsDir).sessionDir s)
    Owned sessionsDir called after.2
      (if after.1.isOk then results.remove s else results) := by
  intro after
  have hplace : resolve ((ToolResultStore.new sessionsDir).sessionDir s) =
      sessionPlace sessionsDir s := resolve_sessionDir hs
  cases hlookup : disk.lookup ((ToolResultStore.new sessionsDir).sessionDir s) with
  | none =>
    have hafter : after = (.ok (), disk) := by
      change Sessions.removeIfPresent _ _ = _
      unfold Sessions.removeIfPresent Disk.removeDirAll
      rw [hlookup]
    rw [hafter]
    refine h.remove_of_none fun c f => ?_
    cases hresult : results s c f with
    | none => rfl
    | some x =>
      obtain ⟨-, -, habove⟩ := h.stored hresult
      have hpre : sessionPlace sessionsDir s <+: callPlace sessionsDir s c :=
        prefix_append _ _
      have hreachable : disk.reachable (sessionPlace sessionsDir s) = true :=
        Disk.reachable_concat _ fun above hbase =>
          habove above ((hbase.trans (prefix_append _ _)).trans hpre)
      have hdir := habove _ hpre
      unfold Disk.isDir at hdir
      rw [← hplace] at hreachable hdir
      rw [Disk.lookup_of_reachable hreachable] at hlookup
      rw [hlookup, Bool.or_eq_true, decide_eq_true_eq, hplace] at hdir
      rcases hdir with hnil | hnone
      · exact absurd hnil (append_ne_nil_of_right_ne_nil _ (cons_ne_nil _ _))
      · exact absurd hnone (by decide)
  | some entry =>
    cases entry with
    | file x =>
      have hafter : after = (.error .notADirectory, disk) := by
        change Sessions.removeIfPresent _ _ = _
        unfold Sessions.removeIfPresent Disk.removeDirAll
        rw [hlookup]
      rw [hafter]
      exact h
    | dir =>
      have hafter : after = (.ok (), fun place =>
          if sessionPlace sessionsDir s <+: place then none else disk place) := by
        change Sessions.removeIfPresent _ _ = _
        unfold Sessions.removeIfPresent Disk.removeDirAll
        rw [hlookup, ← hplace]
        simp only [named_sessionDir hs, if_true]
      rw [hafter]
      exact h.remove hdistinct fun place => rfl

theorem removeMedia (h : Owned sessionsDir called disk results) {key : List Char}
    (hapart : ¬Path.Overlaps (mediaDirFor sessionsDir key)
      (ToolResultStore.new sessionsDir).baseDir) :
    Owned sessionsDir called (Sessions.removeIfPresent disk (mediaDirFor sessionsDir key)).2
      results := by
  refine h.of_eq fun place hnear => ?_
  have hnot : ¬resolve (mediaDirFor sessionsDir key) <+: place := by
    intro hpre
    rcases hnear with habove | hbelow
    · exact hapart (.inl (hpre.trans habove))
    · exact hapart (List.prefix_or_prefix_of_prefix hpre hbelow)
  have hget : (disk.removeDirAll (mediaDirFor sessionsDir key)).2 place = disk place :=
    Disk.get_removeDirAll hnot
  unfold Sessions.removeIfPresent
  split
  · next heq =>
    rw [heq] at hget
    exact hget
  · exact hget

theorem writeFile (h : Owned sessionsDir called disk results) (hdistinct : Distinct called)
    (hs : Proper s) (hc : Proper c) (hcalled : called s c)
    (habove : ∀ above, above <+: callPlace sessionsDir s c → disk.isDir above = true)
    (f : ResultFile) (content : List Char) :
    ∃ disk', Sessions.writeIfMissing disk
        (Path.join ((ToolResultStore.new sessionsDir).callDir s c) f.name) content = .ok disk' ∧
      Owned sessionsDir called disk' (results.keep s c f content) ∧
      ∀ above, above <+: callPlace sessionsDir s c → disk'.isDir above = true := by
  have hplace : resolve (Path.join ((ToolResultStore.new sessionsDir).callDir s c) f.name) =
      resultPlace sessionsDir s c f := resolve_resultPath hs hc f
  have hreachable : disk.reachable (resultPlace sessionsDir s c f) = true :=
    Disk.reachable_concat _ habove
  rw [← hplace] at hreachable
  obtain ⟨disk', hwrite, hget⟩ := writeIfMissing_of_reachable content
    (hplace ▸ resultPlace_ne_nil f) hreachable
  rw [hplace] at hget
  refine ⟨disk', hwrite, h.writeIfMissing hdistinct hcalled habove hget, fun above hpre =>
    Disk.isDir_mono (fun place hdir => ?_) (habove above hpre)⟩
  rw [hget, hdir, if_neg]
  rintro ⟨-, hnone⟩
  cases hnone

end Owned

/-! ## Runs -/

variable {disk : Disk}

section Runs

variable {codec : ResultCodec} {sessionsDir : Path} {events : List ResultEvent}

theorem Names.distinct (h : Names sessionsDir events) : Owned.Distinct (Called events) := by
  rintro s c t d ⟨first, hfirst, rfl, hc⟩ ⟨second, hsecond, rfl, hd⟩ hs hcalls
  have hsession := h.sessions first hfirst second hsecond hs
  exact ⟨hsession, h.calls first hfirst second hsecond hsession c hc d hd hcalls⟩

theorem Owned.step {disk' : Disk} {event : ResultEvent}
    (h : Owned sessionsDir (Called events) disk results) (hnames : Names sessionsDir events)
    (hmem : event ∈ events) (hstep : ResultStep codec sessionsDir disk event disk') :
    Owned sessionsDir (Called events) disk' (results.step codec event) := by
  obtain ⟨operation, done⟩ := event
  unfold ResultStep at hstep
  cases operation with
  | persist s c raw =>
    have hs : Proper s := hnames.session _ hmem
    have hc : Proper c := hnames.call _ hmem c rfl
    have hcalled : Called events s c := ⟨_, hmem, rfl, rfl⟩
    have hdir : resolve ((ToolResultStore.new sessionsDir).callDir s c) = _ := resolve_callDir hs hc
    unfold ResultOperation.perform persist at hstep
    cases hcreate : disk.createDirAll ((ToolResultStore.new sessionsDir).callDir s c) with
    | error e =>
      simp only [hcreate, Prod.mk.injEq] at hstep
      obtain ⟨rfl, rfl⟩ := hstep
      exact h
    | ok created =>
      have habove : ∀ above, above <+: callPlace sessionsDir s c → created.isDir above = true :=
        fun above hpre => Disk.isDir_createDirAll hcreate (hdir ▸ hpre)
      rcases hfiles : resultFiles codec raw with ⟨f, content, schema⟩
      obtain ⟨written, hwrite, howned, habove⟩ := (h.createDirAll hdir hcreate).writeFile
        hnames.distinct hs hc hcalled habove f content
      cases schema with
      | none =>
        simp only [hcreate, hfiles, hwrite, Prod.mk.injEq] at hstep
        obtain ⟨rfl, rfl⟩ := hstep
        unfold Results.step
        simp only [hfiles]
        exact howned
      | some schema =>
        obtain ⟨written', hwrite', howned', -⟩ := howned.writeFile hnames.distinct hs hc hcalled
          habove .schemaJson schema
        simp only [hcreate, hfiles, hwrite, hwrite', Prod.mk.injEq] at hstep
        obtain ⟨rfl, rfl⟩ := hstep
        unfold Results.step
        simp only [hfiles]
        exact howned'
  | persistText s c content =>
    have hs : Proper s := hnames.session _ hmem
    have hc : Proper c := hnames.call _ hmem c rfl
    have hcalled : Called events s c := ⟨_, hmem, rfl, rfl⟩
    have hdir : resolve ((ToolResultStore.new sessionsDir).callDir s c) = _ := resolve_callDir hs hc
    unfold ResultOperation.perform persistText at hstep
    cases hcreate : disk.createDirAll ((ToolResultStore.new sessionsDir).callDir s c) with
    | error e =>
      simp only [hcreate, Prod.mk.injEq] at hstep
      obtain ⟨rfl, rfl⟩ := hstep
      exact h
    | ok created =>
      have habove : ∀ above, above <+: callPlace sessionsDir s c → created.isDir above = true :=
        fun above hpre => Disk.isDir_createDirAll hcreate (hdir ▸ hpre)
      obtain ⟨written, hwrite, howned, -⟩ := (h.createDirAll hdir hcreate).writeFile
        hnames.distinct hs hc hcalled habove .contentTxt content
      simp only [hcreate, hwrite, Prod.mk.injEq] at hstep
      obtain ⟨rfl, rfl⟩ := hstep
      exact howned
  | clear s =>
    have hs : Proper s := hnames.session _ hmem
    have hmedia := h.removeMedia (hnames.media _ hmem s rfl)
    unfold ResultOperation.perform clear at hstep
    rcases hremoved : Sessions.removeIfPresent disk (mediaDirFor sessionsDir s) with ⟨result, left⟩
    rw [hremoved] at hmedia
    change Owned sessionsDir (Called events) left results at hmedia
    cases result with
    | error e =>
      simp only [hremoved, Prod.mk.injEq] at hstep
      obtain ⟨rfl, rfl⟩ := hstep
      exact hmedia
    | ok result =>
      have hcleared := hmedia.removeIfPresent hs fun {t c} hcalled heq => by
        obtain ⟨other, hother, rfl, -⟩ := hcalled
        exact hnames.sessions _ hmem _ hother heq
      simp only [hremoved, Prod.mk.injEq] at hstep
      obtain ⟨rfl, rfl⟩ := hstep
      unfold Results.step
      cases hdone : (Sessions.removeIfPresent left
          ((ToolResultStore.new sessionsDir).sessionDir s)).1.isOk with
      | false | true =>
        simp only [hdone] at hcleared
        exact hcleared

theorem owned_empty
    (hfresh : ∀ place, basePlace sessionsDir <+: place → place ≠ basePlace sessionsDir →
      disk place = none) : Owned sessionsDir (Called events) disk Results.empty where
  stored hresult := by cases hresult
  files hbelow hne hfile := by
    rw [hfresh _ hbelow hne] at hfile
    cases hfile
  dirs {place} hbelow hdir := by
    by_cases heq : place = basePlace sessionsDir
    · rw [heq]
      omega
    · rw [hfresh _ hbelow heq] at hdir
      cases hdir

theorem Owned.run {disk' : Disk} {rest : List ResultEvent}
    (h : Owned sessionsDir (Called events) disk results) (hnames : Names sessionsDir events)
    (hrest : rest ⊆ events) (hrun : Run (ResultStep codec sessionsDir) disk rest disk') :
    Owned sessionsDir (Called events) disk' (rest.foldl (Results.step codec) results) := by
  induction hrun generalizing results with
  | nil => exact h
  | cons hstep _ ih =>
    rw [cons_subset] at hrest
    exact ih (h.step hnames hrest.1 hstep) hrest.2

theorem Called.proper (hnames : Names sessionsDir events) (h : Called events s c) :
    Proper s ∧ Proper c := by
  obtain ⟨event, hmem, rfl, hcall⟩ := h
  exact ⟨hnames.session event hmem, hnames.call event hmem c hcall⟩

theorem Owned.lookup (h : Owned sessionsDir (Called events) disk results)
    (hnames : Names sessionsDir events) (hcalled : Called events s c) (f : ResultFile) :
    disk.lookup ((ToolResultStore.new sessionsDir).resultPath s c f) =
      (results s c f).map .file := by
  obtain ⟨hs, hc⟩ := hcalled.proper hnames
  have hplace : resolve ((ToolResultStore.new sessionsDir).resultPath s c f) = _ :=
    resolve_resultPath hs hc f
  have hget := h.get hnames.distinct hcalled f
  unfold Disk.lookup
  rw [hplace, hget]
  cases hresult : results s c f with
  | none => rw [Option.map_none, ite_self]
  | some x =>
    rw [if_pos]
    exact Disk.reachable_concat _ (h.stored hresult).2.2

/-- **Sessions own their directories**: what is in the directory of a call is what the operations
about it did. -/
structure Isolated (codec : ResultCodec) (sessionsDir : Path) (events : List ResultEvent)
    (disk : Disk) : Prop where
  contents : ∀ s c, Called events s c → ∀ f,
    disk.lookup ((ToolResultStore.new sessionsDir).resultPath s c f) =
      (Results.after codec events s c f).map .file
  own : ∀ s c, Results.after codec events s c =
    Results.after codec (events.filter (Results.concerns s c)) s c
  /-- The files of a call are two names below the directory of the results. -/
  inside : ∀ s c, Called events s c → ∀ f,
    resolve ((ToolResultStore.new sessionsDir).resultPath s c f) =
      resolve (ToolResultStore.new sessionsDir).baseDir ++
        [.normal (sanitizePathComponent s), .normal (sanitizePathComponent c), .normal f.name]
  /-- Nothing else is there. -/
  files : ∀ place x, resolve (ToolResultStore.new sessionsDir).baseDir <+: place →
    place ≠ resolve (ToolResultStore.new sessionsDir).baseDir → disk place = some (.file x) →
    ∃ s c f, Called events s c ∧
      place = resolve ((ToolResultStore.new sessionsDir).resultPath s c f)
  /-- A session that was just cleared has no results, the others have theirs. -/
  cleared : ∀ front s, events = front ++ [⟨.clear s, true⟩] → ∀ t c, Called events t c → ∀ f,
    disk.lookup ((ToolResultStore.new sessionsDir).resultPath t c f) =
      if t = s then none else (Results.after codec front t c f).map .file

/-- **Tool results are owned by their sessions and calls**, as long as the keys of a run are
flattened to names of their own. -/
theorem results_owned {start disk : Disk}
    (hfresh : ∀ place, basePlace sessionsDir <+: place → place ≠ basePlace sessionsDir →
      start place = none)
    (hrun : Run (ResultStep codec sessionsDir) start events disk)
    (hnames : Names sessionsDir events) : Isolated codec sessionsDir events disk := by
  have howned : Owned sessionsDir (Called events) disk (Results.after codec events) :=
    (owned_empty hfresh).run hnames (List.Subset.refl events) hrun
  refine ⟨fun s c hcalled f => howned.lookup hnames hcalled f,
    fun s c => Results.after_filter s c events, fun s c hcalled f => ?_,
    fun place x hbelow hne hfile => ?_, fun front s hlast t c hcalled f => ?_⟩
  · obtain ⟨hs, hc⟩ := hcalled.proper hnames
    rw [resolve_resultPath hs hc]
    simp [resultPlace, callPlace, sessionPlace, basePlace]
  · obtain ⟨s, c, f, hplace, hresult⟩ := howned.files hbelow hne hfile
    have hcalled := (howned.stored hresult).1
    obtain ⟨hs, hc⟩ := hcalled.proper hnames
    exact ⟨s, c, f, hcalled, hplace.trans (resolve_resultPath hs hc f).symm⟩
  · rw [howned.lookup hnames hcalled f, hlast]
    unfold Results.after
    rw [List.foldl_append]
    change (Results.remove s _ t c f).map _ = _
    unfold Results.remove
    split
    · rfl
    · rfl

end Runs

theorem step_perform {codec : ResultCodec} {sessionsDir : Path} {operation : ResultOperation}
    {done : Bool} (h : (operation.perform codec sessionsDir disk).1 = done) :
    ResultStep codec sessionsDir disk ⟨operation, done⟩
      (operation.perform codec sessionsDir disk).2 := Prod.ext h rfl

theorem results_owned_two :
    ∃ disk, Isolated ⟨fun _ => none, fun _ => [], fun _ => []⟩ "/d".toList
      [⟨.persistText "a".toList "c".toList "x".toList, true⟩, ⟨.clear "b".toList, true⟩] disk :=
  ⟨_, @results_owned _ _ _ (fun _ => none) _ (fun _ _ _ => rfl)
    (.cons (step_perform (by decide)) (.cons (step_perform (by decide)) (.nil _)))
    { session := by decide
      call := by decide
      sessions := by decide
      calls := by decide
      media := by
        intro event hmem key hkey
        rw [List.mem_cons, List.mem_singleton] at hmem
        rcases hmem with rfl | rfl
        · cases hkey
        · cases hkey
          unfold Path.Overlaps
          decide }⟩

/-- Keys that are flattened to one name share their results, and dots lead out of the directory. -/
theorem flattened_keys_share :
    let store := ToolResultStore.new "/d".toList
    let first := (persistText store (fun _ => none) "a_b".toList "c".toList "x".toList).2
    let second := (persistText store first "a:b".toList "c".toList "y".toList).2
    let result := store.resultPath "a_b".toList "c".toList .contentTxt
    second.lookup (store.resultPath "a:b".toList "c".toList .contentTxt) =
        some (.file "x".toList) ∧
      (clear "/d".toList second "a:b".toList).2.lookup result = none ∧
      (clear "/d".toList second "..".toList).2.lookup result = none ∧
      resolve (store.resultPath "..".toList "c".toList .contentTxt) =
        resolve "/d/c/content.txt".toList := by
  decide

end Chelix.Sessions
