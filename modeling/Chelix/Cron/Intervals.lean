import Chelix.Library.Text
import Chelix.Library.Words
import Chelix.Cron.Service

/-!
# Intervals of cron jobs

The next run of an interval and the milliseconds of a duration are computed with words of 64 bits,
whose sums and products are not checked.

* **`intervals_exact_iff`**: both.
-/

namespace Chelix.Cron

open Chelix.Library Option

/-! ## The next run -/

/-- The next run of an interval whose anchor is not in the future. -/
def nextInterval (build : Build) (everyMs anchor nowMs : ℕ) : Option ℕ := do
  let elapsed := nowMs - anchor
  let intervals := elapsed / everyMs
  let count ← build.word (intervals + 1)
  let product ← build.word (count * everyMs)
  build.word (anchor + product)

/-- The next run of a schedule; nothing, where the build stops. -/
def computeNextRunOn (build : Build) (cron : CronExpressions) (schedule : CronSchedule)
    (nowMs : ℕ) : Option (Except String (Option ℕ)) :=
  match schedule with
  | .every everyMs anchorMs =>
    if everyMs = 0 then some (.error "every_ms must be > 0")
    else
      let anchor := anchorMs.getD nowMs
      if anchor > nowMs then some (.ok (some anchor))
      else (nextInterval build everyMs anchor nowMs).map fun next => .ok (some next)
  | schedule => some (computeNextRun cron schedule nowMs)

theorem nextInterval_eq_iff (build : Build) {everyMs anchor nowMs : ℕ} (hanchor : anchor ≤ nowMs)
    (hevery : 0 < everyMs) :
    nextInterval build everyMs anchor nowMs = some (nextInProgression everyMs anchor nowMs) ↔
      nextInProgression everyMs anchor nowMs < 2 ^ 64 := by
  have hnext : nextInProgression everyMs anchor nowMs =
      anchor + ((nowMs - anchor) / everyMs + 1) * everyMs := if_neg (Nat.not_lt.mpr hanchor)
  rw [hnext]
  constructor
  · intro h
    obtain ⟨count, -, h⟩ := bind_eq_some_iff.mp h
    obtain ⟨product, -, h⟩ := bind_eq_some_iff.mp h
    exact Build.lt_of_word h
  · intro hlt
    -- the parts are at most the result
    have hproduct : ((nowMs - anchor) / everyMs + 1) * everyMs < 2 ^ 64 :=
      lt_of_le_of_lt (Nat.le_add_left _ _) hlt
    have hcount : (nowMs - anchor) / everyMs + 1 < 2 ^ 64 :=
      lt_of_le_of_lt (Nat.le_mul_of_pos_right _ hevery) hproduct
    unfold nextInterval
    simp only [Build.word_of_lt hcount, Build.word_of_lt hproduct, bind_eq_bind,
      bind_some]
    exact Build.word_of_lt hlt

/-- The next run of an interval is the first after `now` that is a whole number of intervals behind
the anchor. -/
def ExactNextRun (build : Build) (cron : CronExpressions) (everyMs : ℕ) (anchorMs : Option ℕ)
    (nowMs : ℕ) : Prop :=
  ∃ next, computeNextRunOn build cron (.every everyMs anchorMs) nowMs = some (.ok (some next)) ∧
    IsLeast {t | nowMs < t ∧ anchorMs.getD nowMs ≤ t ∧ t ≡ anchorMs.getD nowMs [MOD everyMs]} next

theorem nextRun_exact_iff (build : Build) (cron : CronExpressions) {everyMs : ℕ}
    (hevery : 0 < everyMs) (anchorMs : Option ℕ) (nowMs : ℕ) :
    ExactNextRun build cron everyMs anchorMs nowMs ↔
      nowMs < anchorMs.getD nowMs ∨
        anchorMs.getD nowMs + ((nowMs - anchorMs.getD nowMs) / everyMs + 1) * everyMs < 2 ^ 64 := by
  have hleast := isLeast_nextInProgression hevery (anchorMs.getD nowMs) nowMs
  have hcompute : computeNextRunOn build cron (.every everyMs anchorMs) nowMs =
      if nowMs < anchorMs.getD nowMs then some (.ok (some (anchorMs.getD nowMs)))
      else (nextInterval build everyMs (anchorMs.getD nowMs) nowMs).map fun next =>
        .ok (some next) := if_neg hevery.ne'
  unfold ExactNextRun
  rw [hcompute]
  by_cases hfuture : nowMs < anchorMs.getD nowMs
  · rw [if_pos hfuture]
    have hnext : nextInProgression everyMs (anchorMs.getD nowMs) nowMs = anchorMs.getD nowMs :=
      if_pos hfuture
    rw [hnext] at hleast
    exact iff_of_true ⟨_, rfl, hleast⟩ (.inl hfuture)
  · rw [if_neg hfuture]
    have hexact := nextInterval_eq_iff build (Nat.not_lt.mp hfuture) hevery
    have hnext : nextInProgression everyMs (anchorMs.getD nowMs) nowMs =
        anchorMs.getD nowMs + ((nowMs - anchorMs.getD nowMs) / everyMs + 1) * everyMs :=
      if_neg hfuture
    constructor
    · rintro ⟨next, hresult, hnextLeast⟩
      obtain ⟨_, hinterval, heq⟩ := map_eq_some_iff.mp hresult
      cases heq
      rw [hnextLeast.unique hleast] at hinterval
      exact .inr (hnext ▸ hexact.mp hinterval)
    · intro hfits
      refine ⟨_, ?_, hleast⟩
      rw [hexact.mpr (hnext ▸ hfits.resolve_left hfuture)]
      rfl

/-! ## Durations -/

inductive DurationUnit where
  | seconds
  | minutes
  | hours
  | days
  deriving DecidableEq

namespace DurationUnit

def suffix : DurationUnit → List Char
  | seconds => ['s']
  | minutes => ['m']
  | hours => ['h']
  | days => ['d']

def millis : DurationUnit → ℕ
  | seconds => 1000
  | minutes => 60000
  | hours => 3600000
  | days => 86400000

def ofSuffix : List Char → Option DurationUnit
  | ['s'] => some seconds
  | ['m'] => some minutes
  | ['h'] => some hours
  | ['d'] => some days
  | _ => none

theorem ofSuffix_eq_some_iff {text : List Char} {unit : DurationUnit} :
    ofSuffix text = some unit ↔ text = unit.suffix := by
  constructor
  · intro h
    unfold ofSuffix at h
    split at h <;> cases h <;> rfl
  · rintro rfl
    cases unit <;> rfl

end DurationUnit

section Durations

variable (build : Build) (isAlphabetic : Char → Bool)

/-- The milliseconds of a duration in text; nothing, where the build stops. -/
def parseDurationMs (input : String) : Option (Except String ℕ) :=
  let text := trimText input.toList
  if text = [] then some (.error "empty duration string")
  else if text = ['0'] then some (.ok 0)
  else
    let number := text.takeWhile fun c => !isAlphabetic c
    match text.dropWhile fun c => !isAlphabetic c with
    | [] => some (.error ("duration missing unit suffix (s/m/h/d): " ++ String.ofList text))
    | suffix =>
      match readWord number with
      | none => some (.error ("invalid number in duration: " ++ String.ofList number))
      | some value =>
        if value = 0 then some (.error "duration must be > 0")
        else
          match DurationUnit.ofSuffix suffix with
          | none =>
            some (.error ("unknown duration suffix: " ++ String.ofList suffix ++
              " (expected s/m/h/d)"))
          | some unit => (build.word (value * unit.millis)).map .ok

/-- A text is a number of 64 bits with a unit behind it. -/
def WritesDuration (input : String) (value : ℕ) (unit : DurationUnit) : Prop :=
  ∃ number, trimText input.toList = number ++ unit.suffix ∧ readWord number = some value

/-- What a duration in text is, or an error. -/
def ExactDuration (input : String) : Prop :=
  ∃ result, parseDurationMs build isAlphabetic input = some result ∧ ∀ ms, result = .ok ms →
    (trimText input.toList = ['0'] ∧ ms = 0) ∨
      ∃ value unit, WritesDuration input value unit ∧ ms = value * unit.millis

variable {isAlphabetic}

theorem not_alphabetic_of_readWord
    (hascii : ∀ c : Char, c.toNat < 128 → isAlphabetic c = c.isAlpha) {number : List Char}
    {value : ℕ} (h : readWord number = some value) : ∀ c ∈ number, (!isAlphabetic c) = true := by
  intro c hc
  rcases digit_or_plus_of_readWord h c hc with hdigit | rfl
  · obtain ⟨hlow, hhigh⟩ := Char.isDigit_iff_toNat.mp hdigit
    have halpha : c.isAlpha = false := by
      rw [Bool.eq_false_iff]
      intro halpha
      unfold Char.isAlpha Char.isUpper Char.isLower at halpha
      simp only [Bool.or_eq_true, Bool.and_eq_true, decide_eq_true_eq, ge_iff_le,
        UInt32.le_iff_toNat_le] at halpha
      change (65 ≤ c.toNat ∧ c.toNat ≤ 90) ∨ (97 ≤ c.toNat ∧ c.toNat ≤ 122) at halpha
      change c.toNat ≤ 57 at hhigh
      omega
    have hlt : c.toNat < 128 := lt_of_le_of_lt hhigh (by decide)
    rw [hascii c hlt, halpha]
    rfl
  · rw [hascii '+' (by decide)]
    rfl

theorem splits_of_writes (hascii : ∀ c : Char, c.toNat < 128 → isAlphabetic c = c.isAlpha)
    {number : List Char} {value : ℕ} (h : readWord number = some value) (unit : DurationUnit) :
    (number ++ unit.suffix).takeWhile (fun c => !isAlphabetic c) = number ∧
      (number ++ unit.suffix).dropWhile (fun c => !isAlphabetic c) = unit.suffix := by
  have hnumber := not_alphabetic_of_readWord hascii h
  have htake : unit.suffix.takeWhile (fun c => !isAlphabetic c) = [] := by
    cases unit <;> simp [DurationUnit.suffix, hascii]
  have hdrop : unit.suffix.dropWhile (fun c => !isAlphabetic c) = unit.suffix := by
    cases unit <;> simp [DurationUnit.suffix, hascii]
  rw [List.takeWhile_append_of_pos hnumber, List.dropWhile_append_of_pos hnumber, htake, hdrop,
    List.append_nil]
  exact ⟨rfl, rfl⟩

theorem DurationUnit.length_suffix (unit : DurationUnit) : unit.suffix.length = 1 := by
  cases unit <;> rfl

namespace WritesDuration

variable {input : String} {value : ℕ} {unit : DurationUnit}

theorem one_lt_length (h : WritesDuration input value unit) :
    1 < (trimText input.toList).length := by
  obtain ⟨number, htext, hvalue⟩ := h
  have hne : number ≠ [] := by
    rintro rfl
    cases hvalue
  have hlength := List.length_pos_iff.mpr hne
  rw [htext, List.length_append, unit.length_suffix]
  omega

theorem unique (h : WritesDuration input value unit) {value' : ℕ} {unit' : DurationUnit}
    (h' : WritesDuration input value' unit') : value = value' ∧ unit = unit' := by
  obtain ⟨number, htext, hvalue⟩ := h
  obtain ⟨number', htext', hvalue'⟩ := h'
  obtain ⟨rfl, hsuffix⟩ := List.append_inj' (htext.symm.trans htext')
    (unit.length_suffix.trans unit'.length_suffix.symm)
  refine ⟨Option.some.inj (hvalue.symm.trans hvalue'), Option.some.inj ?_⟩
  rw [← DurationUnit.ofSuffix_eq_some_iff.mpr rfl, hsuffix,
    DurationUnit.ofSuffix_eq_some_iff.mpr rfl]

end WritesDuration

theorem parseDurationMs_of_writes
    (hascii : ∀ c : Char, c.toNat < 128 → isAlphabetic c = c.isAlpha) {input : String}
    {value : ℕ} {unit : DurationUnit} (h : WritesDuration input value unit) :
    parseDurationMs build isAlphabetic input =
      if value = 0 then some (.error "duration must be > 0")
      else (build.word (value * unit.millis)).map .ok := by
  have hlength := h.one_lt_length
  obtain ⟨number, htext, hvalue⟩ := h
  obtain ⟨htake, hdrop⟩ := splits_of_writes hascii hvalue unit
  rw [htext] at hlength
  have hnil : number ++ unit.suffix ≠ [] := by
    intro heq
    rw [heq] at hlength
    exact absurd hlength (Nat.not_lt_zero _)
  have hzero : number ++ unit.suffix ≠ ['0'] := by
    intro heq
    rw [heq] at hlength
    exact absurd hlength (Nat.lt_irrefl _)
  unfold parseDurationMs
  simp only [htext, if_neg hnil, if_neg hzero, htake, hdrop, hvalue]
  cases unit <;> rfl

theorem parseDurationMs_cases (input : String) :
    (∃ e, parseDurationMs build isAlphabetic input = some (.error e)) ∨
      (trimText input.toList = ['0'] ∧
        parseDurationMs build isAlphabetic input = some (.ok 0)) ∨
      ∃ value unit, WritesDuration input value unit ∧
        parseDurationMs build isAlphabetic input =
          (build.word (value * unit.millis)).map .ok := by
  unfold parseDurationMs
  simp only
  split
  · exact .inl ⟨_, rfl⟩
  split
  · rename_i hzero
    exact .inr (.inl ⟨hzero, rfl⟩)
  split
  · exact .inl ⟨_, rfl⟩
  rename_i suffix hsuffix
  split
  · exact .inl ⟨_, rfl⟩
  rename_i value hvalue
  split
  · exact .inl ⟨_, rfl⟩
  split
  · exact .inl ⟨_, rfl⟩
  rename_i unit hunit
  refine .inr (.inr ⟨value, unit, ⟨_, ?_, hvalue⟩, rfl⟩)
  rw [← DurationUnit.ofSuffix_eq_some_iff.mp hunit]
  exact (List.takeWhile_append_dropWhile).symm

theorem duration_exact_iff (hascii : ∀ c : Char, c.toNat < 128 → isAlphabetic c = c.isAlpha)
    (input : String) :
    ExactDuration build isAlphabetic input ↔
      ∀ value unit, WritesDuration input value unit → value * unit.millis < 2 ^ 64 := by
  constructor
  · rintro ⟨result, hresult, hexact⟩ value unit hwrites
    rw [parseDurationMs_of_writes build hascii hwrites] at hresult
    split at hresult
    · rename_i hzero
      rw [hzero, Nat.zero_mul]
      decide
    · obtain ⟨ms, hword, heq⟩ := map_eq_some_iff.mp hresult
      rcases hexact ms heq.symm with ⟨hsentinel, -⟩ | ⟨value', unit', hwrites', rfl⟩
      · have hlength := hwrites.one_lt_length
        rw [hsentinel] at hlength
        exact absurd hlength (Nat.lt_irrefl _)
      · obtain ⟨rfl, rfl⟩ := hwrites.unique hwrites'
        exact Build.lt_of_word hword
  · intro hfits
    rcases parseDurationMs_cases build input with
      ⟨e, herror⟩ | ⟨hzero, hok⟩ | ⟨value, unit, hwrites, hword⟩
    · exact ⟨_, herror, fun ms heq => by cases heq⟩
    · refine ⟨_, hok, fun ms heq => .inl ⟨hzero, ?_⟩⟩
      cases heq
      rfl
    · rw [Build.word_of_lt (hfits value unit hwrites)] at hword
      refine ⟨_, hword, fun ms heq => .inr ⟨value, unit, hwrites, ?_⟩⟩
      cases heq
      rfl

end Durations

/-! ## Both -/

/-- **Intervals are exact** when they fit: the next run of an interval is the first one after `now`
that is a whole number of intervals behind the anchor exactly if the anchor is in the future or
that run fits a word, and a duration in text is exact or refused exactly if the milliseconds of
its number fit one. -/
theorem intervals_exact_iff (build : Build) (cron : CronExpressions) {isAlphabetic : Char → Bool}
    (hascii : ∀ c : Char, c.toNat < 128 → isAlphabetic c = c.isAlpha) :
    (∀ (everyMs : ℕ) (anchorMs : Option ℕ) (nowMs : ℕ), 0 < everyMs →
      (ExactNextRun build cron everyMs anchorMs nowMs ↔
        nowMs < anchorMs.getD nowMs ∨
          anchorMs.getD nowMs + ((nowMs - anchorMs.getD nowMs) / everyMs + 1) * everyMs <
            2 ^ 64)) ∧
      ∀ input, ExactDuration build isAlphabetic input ↔
        ∀ value unit, WritesDuration input value unit → value * unit.millis < 2 ^ 64 :=
  ⟨fun _ anchorMs nowMs hevery => nextRun_exact_iff build cron hevery anchorMs nowMs,
    duration_exact_iff build hascii⟩

/-- No cron expression is valid. -/
def intervalsOnly : CronExpressions := fun _ _ _ => .error "no cron expressions"

theorem intervals_exact_ascii :
    ExactNextRun .checked intervalsOnly 60000 (some 10000) 130000 ∧
      ExactDuration .checked Char.isAlpha "5m" := by
  obtain ⟨hruns, hdurations⟩ := intervals_exact_iff .checked intervalsOnly
    (fun c _ => rfl : ∀ c : Char, c.toNat < 128 → c.isAlpha = c.isAlpha)
  refine ⟨(hruns 60000 (some 10000) 130000 (by decide)).mpr (.inr (by decide)),
    (hdurations "5m").mpr fun value unit hwrites => ?_⟩
  have hexact : WritesDuration "5m" 5 .minutes := ⟨['5'], by decide, by decide⟩
  obtain ⟨rfl, rfl⟩ := hwrites.unique hexact
  decide

/-- A report at an interval of almost the greatest word. -/
def rareReport : CronJobCreate where
  name := "report"
  schedule := .every (2 ^ 64 - 1000) none
  payload := .systemEvent "report"
  sessionTarget := .main
  deleteAfterRun := false
  enabled := true
  autoPruneContainer := none

/-- It is added, and its next run is at the epoch; a duration of too many days is a few hours. -/
theorem wrapped_intervals :
    ((CronState.addedJob intervalsOnly rareReport 1000).toOption.any fun job =>
        job.state.nextRunAtMs = some 0) = true ∧
      ¬ExactNextRun .wrapping intervalsOnly (2 ^ 64 - 1000) none 1000 ∧
      ¬ExactDuration .wrapping Char.isAlpha "213503982335d" := by
  refine ⟨by decide, fun hexact => ?_, fun hexact => ?_⟩
  · have hfits := (nextRun_exact_iff .wrapping intervalsOnly (by decide) none 1000).mp hexact
    exact absurd hfits (by decide)
  · have hwrites : WritesDuration "213503982335d" 213503982335 .days :=
      ⟨"213503982335".toList, by decide, by decide⟩
    have hfits := (duration_exact_iff .wrapping (fun c _ => rfl) "213503982335d").mp hexact _ _
      hwrites
    exact absurd hfits (by decide)

end Chelix.Cron
