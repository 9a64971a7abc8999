import Chelix.Providers.ChatStream

/-!
# Reasoning tags and chunks

The visible text and the reasoning of a response are what stands outside and inside the blocks
that reasoning tags open and close.

* **`reasoning_split`**: the adapter splits a text in this way however it is cut into chunks.
-/

namespace Chelix.Providers

open Chelix.Agents.Model Chelix.Common Chelix.Library List

/-! ## The rule -/

/-- A text without the white space it begins with, where that is to be stripped. -/
def lead (strip : Bool) (text : List Char) : List Char := if strip then trimStart text else text

/-- Whether white space is still to be stripped behind a text. -/
def stripsAfter (strip : Bool) (text : List Char) : Bool := strip && (trimStart text).isEmpty

theorem lead_append (strip : Bool) (a b : List Char) :
    lead strip (a ++ b) = lead strip a ++ lead (stripsAfter strip a) b := by
  cases strip with
  | false => rfl
  | true =>
    show trimStart (a ++ b) = trimStart a ++ lead (trimStart a).isEmpty b
    rw [trimStart_append]
    cases htrim : trimStart a with
    | nil | cons c rest => rfl

/-- Outside of the blocks, or in a block; with the white space that is yet to be stripped. -/
inductive Place where
  | outside (strip : Bool)
  | inside (tag : ReasoningTag) (strip : Bool)

namespace Place

/-- The tags that end the stay in a place, and where they lead. -/
def exits : Place → List (List Char × Place)
  | .outside _ => ReasoningTag.all.map fun tag => (tag.opening, .inside tag true)
  | .inside tag _ => [(tag.closing, .outside true)]

/-- What of a text read in a place is visible. -/
def visible : Place → List Char → List Char
  | .outside strip, text => lead strip text
  | .inside _ _, _ => []

/-- What of a text read in a place is reasoning. -/
def reasoning : Place → List Char → List Char
  | .outside _, _ => []
  | .inside _ strip, text => lead strip text

/-- The place behind a text that holds no exit. -/
def after : Place → List Char → Place
  | .outside strip, text => .outside (stripsAfter strip text)
  | .inside tag strip, text => .inside tag (stripsAfter strip text)

/-- An exit of the place occurs in the text at the position. -/
def ExitsAt (place : Place) (text : List Char) (pos : ℕ) : Prop :=
  ∃ e ∈ place.exits, OccursAt e.1 text pos

end Place

/-- The text read from a place on, told apart into visible text and reasoning. -/
inductive Splits : Place → List Char → List Char → List Char → Prop
  | rest {place : Place} {text : List Char} (h : ∀ pos, ¬ place.ExitsAt text pos) :
      Splits place text (place.visible text) (place.reasoning text)
  | exit {place next : Place} {tag text v r : List Char} {pos : ℕ}
      (hmem : (tag, next) ∈ place.exits) (hat : OccursAt tag text pos)
      (hfirst : ∀ pos', place.ExitsAt text pos' → pos ≤ pos')
      (h : Splits next (text.drop (pos + tag.length)) v r) :
      Splits place text (place.visible (text.take pos) ++ v) (place.reasoning (text.take pos) ++ r)

variable {text : List Char} {pos : ℕ}

namespace Place

theorem exits_after (place : Place) (text : List Char) : (place.after text).exits = place.exits := by
  cases place <;> rfl

theorem exitsAt_after (place : Place) (text text' : List Char) (pos : ℕ) :
    (place.after text).ExitsAt text' pos ↔ place.ExitsAt text' pos := by
  rw [ExitsAt, ExitsAt, exits_after]

theorem visible_append (place : Place) (a b : List Char) :
    place.visible (a ++ b) = place.visible a ++ (place.after a).visible b := by
  cases place with
  | outside strip => exact lead_append strip a b
  | inside tag strip => rfl

theorem reasoning_append (place : Place) (a b : List Char) :
    place.reasoning (a ++ b) = place.reasoning a ++ (place.after a).reasoning b := by
  cases place with
  | outside strip => rfl
  | inside tag strip => exact lead_append strip a b

theorem exitsAt_drop {place : Place} {n pos : ℕ} :
    place.ExitsAt (text.drop n) pos ↔ place.ExitsAt text (n + pos) := by
  simp only [ExitsAt, occursAt_drop]

theorem tag_form {place next : Place} {tag : List Char} (h : (tag, next) ∈ place.exits) :
    ∃ rest, tag = '<' :: rest ∧ '<' ∉ rest := by
  cases place with
  | outside strip =>
    simp only [exits, ReasoningTag.all, map_cons, map_nil, mem_cons,
      Prod.mk.injEq, not_mem_nil, or_false] at h
    rcases h with ⟨rfl, -⟩ | ⟨rfl, -⟩
    · exact ⟨"think>".toList, by decide, by decide⟩
    · exact ⟨"thought>".toList, by decide, by decide⟩
  | inside current strip =>
    simp only [exits, mem_singleton, Prod.mk.injEq] at h
    obtain ⟨rfl, -⟩ := h
    cases current with
    | think => exact ⟨"/think>".toList, by decide, by decide⟩
    | thought => exact ⟨"/thought>".toList, by decide, by decide⟩

theorem tag_ne_nil {place next : Place} {tag : List Char} (h : (tag, next) ∈ place.exits) :
    tag ≠ [] := by
  obtain ⟨rest, rfl, -⟩ := tag_form h
  exact cons_ne_nil _ _

theorem exit_unique {place next next' : Place} {tag tag' text : List Char}
    (h : (tag, next) ∈ place.exits) (h' : (tag', next') ∈ place.exits)
    (hat : OccursAt tag text pos) (hat' : OccursAt tag' text pos) :
    tag = tag' ∧ next = next' := by
  cases place with
  | inside current strip =>
    simp only [exits, mem_singleton, Prod.mk.injEq] at h h'
    exact ⟨h.1.trans h'.1.symm, h.2.trans h'.2.symm⟩
  | outside strip =>
    have hboth := prefix_or_prefix_of_prefix hat hat'
    simp only [exits, ReasoningTag.all, map_cons, map_nil, mem_cons,
      Prod.mk.injEq, not_mem_nil, or_false] at h h'
    rcases h with ⟨rfl, rfl⟩ | ⟨rfl, rfl⟩ <;> rcases h' with ⟨rfl, rfl⟩ | ⟨rfl, rfl⟩
    · exact ⟨rfl, rfl⟩
    · exact absurd hboth (by decide)
    · exact absurd hboth (by decide)
    · exact ⟨rfl, rfl⟩

end Place

namespace Splits

theorem unique {place : Place} {text v r v' r' : List Char} (h : Splits place text v r)
    (h' : Splits place text v' r') : v = v' ∧ r = r' := by
  induction h generalizing v' r' with
  | rest hnone =>
    cases h' with
    | rest => exact ⟨rfl, rfl⟩
    | exit hmem hat => exact absurd ⟨_, hmem, hat⟩ (hnone _)
  | @exit place next tag text v r pos hmem hat hfirst _ ih =>
    cases h' with
    | rest hnone => exact absurd ⟨_, hmem, hat⟩ (hnone _)
    | @exit _ next' tag' _ w w' pos' hmem' hat' hfirst' h' =>
      have hpos : pos = pos' :=
        le_antisymm (hfirst _ ⟨_, hmem', hat'⟩) (hfirst' _ ⟨_, hmem, hat⟩)
      subst hpos
      obtain ⟨rfl, rfl⟩ := Place.exit_unique hmem hmem' hat hat'
      obtain ⟨rfl, rfl⟩ := ih h'
      exact ⟨rfl, rfl⟩

/-- A part in which no exit begins can be split off. -/
theorem emit {place : Place} {text v r : List Char} {n : ℕ}
    (hsafe : ∀ pos < n, ¬ place.ExitsAt text pos)
    (h : Splits (place.after (text.take n)) (text.drop n) v r) :
    Splits place text (place.visible (text.take n) ++ v) (place.reasoning (text.take n) ++ r) := by
  have hlater : ∀ pos, place.ExitsAt text pos →
      ∃ pos', pos = n + pos' ∧ place.ExitsAt (text.drop n) pos' := by
    intro pos hpos
    rcases Nat.lt_or_ge pos n with hlt | hge
    · exact absurd hpos (hsafe pos hlt)
    · refine ⟨pos - n, by omega, ?_⟩
      rw [Place.exitsAt_drop, show n + (pos - n) = pos by omega]
      exact hpos
  generalize hplace : place.after (text.take n) = behind at h
  generalize htail : text.drop n = tail at h
  cases h with
  | rest hnone =>
    subst hplace htail
    rw [← Place.visible_append, ← Place.reasoning_append, take_append_drop]
    refine .rest fun pos hpos => ?_
    obtain ⟨pos', rfl, hpos'⟩ := hlater pos hpos
    exact hnone pos' ((Place.exitsAt_after ..).mpr hpos')
  | @exit _ next tag _ w w' pos hmem hat hfirst h =>
    subst hplace htail
    rw [← append_assoc, ← append_assoc, ← Place.visible_append,
      ← Place.reasoning_append, ← take_add]
    rw [Place.exits_after] at hmem
    rw [drop_drop, ← Nat.add_assoc] at h
    refine .exit hmem (occursAt_drop.mp hat) ?_ h
    intro pos' hpos'
    obtain ⟨pos'', rfl, hexit⟩ := hlater pos' hpos'
    have hle := hfirst pos'' ((Place.exitsAt_after ..).mpr hexit)
    omega

end Splits

/-! ## What is held back -/

attribute [local simp] longestTagSuffixFrom in
theorem longestTagSuffixFrom_le (text tag : List Char) (len : ℕ) :
    longestTagSuffixFrom text tag len ≤ len := by
  induction len with
  | zero => simp
  | succ len ih =>
    rw [longestTagSuffixFrom]
    split <;> omega

theorem drop_longestTagSuffixFrom (text tag : List Char) (len : ℕ) :
    text.drop (text.length - longestTagSuffixFrom text tag len) =
      tag.take (longestTagSuffixFrom text tag len) := by
  induction len with
  | zero => simp [longestTagSuffixFrom]
  | succ len ih =>
    rw [longestTagSuffixFrom]
    split
    · assumption
    · exact ih

theorem le_longestTagSuffixFrom {text tag : List Char} {m len : ℕ} (hm : m ≤ len)
    (h : text.drop (text.length - m) = tag.take m) :
    m ≤ longestTagSuffixFrom text tag len := by
  induction len with
  | zero => omega
  | succ len ih =>
    rw [longestTagSuffixFrom]
    split
    · omega
    · next hne =>
        have hlt : m ≠ len + 1 := by
          rintro rfl
          exact hne h
        exact ih (by omega)

namespace Place

/-- How much of a text read in a place is held back. -/
def heldBack : Place → List Char → ℕ
  | .outside _, text => longestReasoningOpenTagSuffix text
  | .inside tag _, text => longestTagSuffix text tag.closing

/-- What is held back is as long as the longest beginning of an exit at the end of the text. -/
theorem heldBack_spec (place : Place) (text : List Char) :
    (∃ e ∈ place.exits, place.heldBack text = longestTagSuffix text e.1) ∧
      ∀ e ∈ place.exits, longestTagSuffix text e.1 ≤ place.heldBack text := by
  cases place with
  | inside tag strip =>
    refine ⟨⟨_, mem_singleton_self _, rfl⟩, ?_⟩
    intro e he
    rw [mem_singleton.mp he]
    exact le_refl _
  | outside strip =>
    have hmax : longestReasoningOpenTagSuffix text =
        max (longestTagSuffix text ReasoningTag.think.opening)
          (longestTagSuffix text ReasoningTag.thought.opening) := by
      rw [longestReasoningOpenTagSuffix]
      simp only [ReasoningTag.all, map_cons, map_nil, foldl_cons, foldl_nil,
        Nat.zero_max]
    rw [heldBack, hmax]
    simp only [exits, ReasoningTag.all, map_cons, map_nil, mem_cons,
      not_mem_nil, or_false, exists_eq_or_imp, forall_eq_or_imp, forall_eq, exists_eq_left]
    omega

theorem heldBack_le (place : Place) (text : List Char) : place.heldBack text ≤ text.length := by
  obtain ⟨⟨e, -, heq⟩, -⟩ := place.heldBack_spec text
  have hle := longestTagSuffixFrom_le text e.1 (min text.length e.1.length)
  rw [heq, longestTagSuffix]
  omega

theorem head_heldBack (place : Place) (text : List Char) :
    text.drop (text.length - place.heldBack text) = [] ∨
      (text.drop (text.length - place.heldBack text)).head? = some '<' := by
  obtain ⟨⟨e, he, heq⟩, -⟩ := place.heldBack_spec text
  obtain ⟨rest, htag, -⟩ := tag_form he
  rw [heq, longestTagSuffix, drop_longestTagSuffixFrom, htag]
  cases longestTagSuffixFrom text ('<' :: rest) (min text.length ('<' :: rest).length) with
  | zero => exact .inl rfl
  | succ k => exact .inr rfl

theorem not_exitsAt_of_lt {place : Place}
    (hnone : ∀ pos, ¬ place.ExitsAt text pos) (rest : List Char)
    (hpos : pos < text.length - place.heldBack text) : ¬ place.ExitsAt (text ++ rest) pos := by
  rintro ⟨e, he, hat⟩
  rcases Nat.lt_or_ge text.length (pos + e.1.length) with hover | hfits
  · have hdrop := hat.drop_eq_take (by omega) (le_of_lt hover)
    have hle : text.length - pos ≤ longestTagSuffix text e.1 := by
      refine le_longestTagSuffixFrom (by omega) ?_
      rw [show text.length - (text.length - pos) = pos by omega]
      exact hdrop
    have hmax := (place.heldBack_spec text).2 e he
    omega
  · exact hnone pos ⟨e, he, hat.of_append hfits⟩

/-- An exit found in a text is still the first one when more text follows. -/
theorem first_append {place next : Place} {tag text : List Char}
    (hmem : (tag, next) ∈ place.exits) (hat : OccursAt tag text pos)
    (hfirst : ∀ pos', place.ExitsAt text pos' → pos ≤ pos') (rest : List Char) {pos' : ℕ}
    (h : place.ExitsAt (text ++ rest) pos') : pos ≤ pos' := by
  by_contra hlt
  obtain ⟨⟨tag', next'⟩, hmem', hat'⟩ := h
  have hlen := hat.length_le (tag_ne_nil hmem)
  rcases Nat.lt_or_ge text.length (pos' + tag'.length) with hover | hfits
  · -- The longer tag would contain the first character of the one that was found.
    obtain ⟨tail, rfl, -⟩ := tag_form hmem
    obtain ⟨tail', rfl, hnot⟩ := tag_form hmem'
    have hchar := (hat.append rest).getElem? (i := 0) (by simp)
    have hwithin : pos - pos' < ('<' :: tail').length := by omega
    have hchar' := hat'.getElem? hwithin
    rw [show pos' + (pos - pos') = pos + 0 by omega, hchar, List.getElem?_cons_zero,
      show pos - pos' = (pos - pos' - 1) + 1 by omega, List.getElem?_cons_succ] at hchar'
    exact hnot (mem_of_getElem? hchar'.symm)
  · have hle := hfirst pos' ⟨_, hmem', hat'.of_append hfits⟩
    omega

end Place

/-! ## What the adapter emits -/

def visiblePart : StreamEvent → List Char
  | .delta text => text.toList
  | _ => []

def reasoningPart : StreamEvent → List Char
  | .providerItemUpdate { payload := .reasoningTextDelta delta, .. } => delta.toList
  | _ => []

/-- The visible text of a list of events. -/
def visibleText (events : List StreamEvent) : List Char := events.flatMap visiblePart

/-- The reasoning of a list of events. -/
def reasoningText (events : List StreamEvent) : List Char := events.flatMap reasoningPart

theorem visibleText_append (a b : List StreamEvent) :
    visibleText (a ++ b) = visibleText a ++ visibleText b :=
  flatMap_append

theorem reasoningText_append (a b : List StreamEvent) :
    reasoningText (a ++ b) = reasoningText a ++ reasoningText b :=
  flatMap_append

variable {s : Chat} {tag : ReasoningTag}

namespace Chat

def place (s : Chat) : Place :=
  match s.own.inThinkBlock, s.own.currentReasoningTag with
  | true, some tag => .inside tag s.own.thinkStripLeadingWs
  | _, _ => .outside s.own.visibleStripLeadingWs

/-- What was emitted between two states, and where the second stands. -/
structure Emits (s t : Chat) (place : Place) (visible reasoning : List Char) : Prop where
  place_eq : t.place = place
  visible_eq : visibleText t.events = visibleText s.events ++ visible
  reasoning_eq : reasoningText t.events = reasoningText s.events ++ reasoning

attribute [local simp] visiblePart reasoningPart in
theorem visibleText_emitVisibleText (s : Chat) (text : List Char) :
    visibleText (s.emitVisibleText text).events = visibleText s.events ++ text := by
  show visibleText ((s.events ++ [_]) ++ [_]) = _
  rw [visibleText_append, visibleText_append]
  simp [visibleText]

theorem reasoningText_emitVisibleText (s : Chat) (text : List Char) :
    reasoningText (s.emitVisibleText text).events = reasoningText s.events := by
  show reasoningText ((s.events ++ [_]) ++ [_]) = _
  rw [reasoningText_append, reasoningText_append]
  simp [reasoningText, reasoningPart, Adapter.nextUpdate]

theorem visibleText_emitReasoningText (s : Chat) (text : List Char) :
    visibleText (s.emitReasoningText text).events = visibleText s.events := by
  show visibleText (s.events ++ [_]) = _
  rw [visibleText_append]
  simp [visibleText, visiblePart]

theorem reasoningText_emitReasoningText (s : Chat) (text : List Char) :
    reasoningText (s.emitReasoningText text).events = reasoningText s.events ++ text := by
  show reasoningText (s.events ++ [_]) = _
  rw [reasoningText_append]
  simp [reasoningText, reasoningPart, Adapter.nextUpdate]

theorem emitVisible_own (text : List Char) (s : Chat) :
    (emitVisible text s).own =
      { s.own with
        visibleStripLeadingWs := stripsAfter s.own.visibleStripLeadingWs text } := by
  rw [emitVisible]
  by_cases htext : text = []
  · have hsame : stripsAfter s.own.visibleStripLeadingWs text = s.own.visibleStripLeadingWs := by
      rw [htext]
      exact Bool.and_true _
    rw [if_pos htext, hsame]
  · rw [if_neg htext]
    cases hstrip : s.own.visibleStripLeadingWs with
    | false =>
      show s.own = { s.own with visibleStripLeadingWs := false }
      rw [← hstrip]
    | true =>
      rw [if_pos rfl, stripsAfter, Bool.true_and]
      by_cases htrim : trimStart text = []
      · rw [if_pos htrim, htrim]
        show s.own = { s.own with visibleStripLeadingWs := true }
        rw [← hstrip]
      · rw [if_neg htrim, isEmpty_eq_false_iff.mpr htrim]
        rfl

theorem emitReasoning_own (text : List Char) (s : Chat) :
    (emitReasoning text s).own =
      { s.own with
        thinkStripLeadingWs := stripsAfter s.own.thinkStripLeadingWs text } := by
  rw [emitReasoning]
  by_cases htext : text = []
  · have hsame : stripsAfter s.own.thinkStripLeadingWs text = s.own.thinkStripLeadingWs := by
      rw [htext]
      exact Bool.and_true _
    rw [if_pos htext, hsame]
  · rw [if_neg htext]
    cases hstrip : s.own.thinkStripLeadingWs with
    | false =>
      show s.own = { s.own with thinkStripLeadingWs := false }
      rw [← hstrip]
    | true =>
      rw [if_pos rfl, stripsAfter, Bool.true_and]
      by_cases htrim : trimStart text = []
      · rw [if_pos htrim, htrim]
        show s.own = { s.own with thinkStripLeadingWs := true }
        rw [← hstrip]
      · rw [if_neg htrim, isEmpty_eq_false_iff.mpr htrim]
        rfl

/-- Visible text is emitted without the white space that is to be stripped. -/
theorem emitVisible_texts (text : List Char) (s : Chat) :
    visibleText (emitVisible text s).events =
        visibleText s.events ++ lead s.own.visibleStripLeadingWs text ∧
      reasoningText (emitVisible text s).events = reasoningText s.events := by
  rw [emitVisible, lead]
  by_cases htext : text = []
  · rw [if_pos htext, htext]
    simp [trimStart]
  · rw [if_neg htext]
    by_cases hstrip : s.own.visibleStripLeadingWs
    · rw [if_pos hstrip, if_pos hstrip]
      by_cases htrim : trimStart text = []
      · rw [if_pos htrim, htrim, append_nil]
        exact ⟨rfl, rfl⟩
      · rw [if_neg htrim]
        exact ⟨visibleText_emitVisibleText _ _, reasoningText_emitVisibleText _ _⟩
    · rw [if_neg hstrip, if_neg hstrip]
      exact ⟨visibleText_emitVisibleText s text, reasoningText_emitVisibleText s text⟩

theorem emitReasoning_texts (text : List Char) (s : Chat) :
    visibleText (emitReasoning text s).events = visibleText s.events ∧
      reasoningText (emitReasoning text s).events =
        reasoningText s.events ++ lead s.own.thinkStripLeadingWs text := by
  rw [emitReasoning, lead]
  by_cases htext : text = []
  · rw [if_pos htext, htext]
    simp [trimStart]
  · rw [if_neg htext]
    by_cases hstrip : s.own.thinkStripLeadingWs
    · rw [if_pos hstrip, if_pos hstrip]
      by_cases htrim : trimStart text = []
      · rw [if_pos htrim, htrim, append_nil]
        exact ⟨rfl, rfl⟩
      · rw [if_neg htrim]
        exact ⟨visibleText_emitReasoningText _ _, reasoningText_emitReasoningText _ _⟩
    · rw [if_neg hstrip, if_neg hstrip]
      exact ⟨visibleText_emitReasoningText s text, reasoningText_emitReasoningText s text⟩

/-- Emitting the text of a place, whichever that is. -/
def emitHere (text : List Char) (s : Chat) : Chat :=
  match s.place with
  | .outside _ => emitVisible text s
  | .inside _ _ => emitReasoning text s

theorem place_of_inside (h : s.own.inThinkBlock = true)
    (htag : s.own.currentReasoningTag = some tag) :
    s.place = .inside tag s.own.thinkStripLeadingWs := by
  rw [place, h, htag]

theorem place_of_not (h : s.own.inThinkBlock = false) :
    s.place = .outside s.own.visibleStripLeadingWs := by
  rw [place, h]

theorem emits_emitHere (text : List Char) (s : Chat) :
    Emits s (emitHere text s) (s.place.after text) (s.place.visible text)
      (s.place.reasoning text) := by
  cases hplace : s.place with
  | outside strip =>
    have hstrip : strip = s.own.visibleStripLeadingWs := by
      rw [place] at hplace
      split at hplace <;> cases hplace
      rfl
    have hhere : emitHere text s = emitVisible text s := by rw [emitHere, hplace]
    obtain ⟨hvisible, hreasoning⟩ := emitVisible_texts text s
    rw [hhere]
    refine ⟨?_, ?_, ?_⟩
    · rw [place, emitVisible_own]
      rw [place] at hplace
      split at hplace
      · cases hplace
      · next hother =>
          rw [hstrip]
          rfl
    · rw [hvisible, hstrip]
      rfl
    · rw [hreasoning]
      exact (append_nil _).symm
  | inside tag strip =>
    have hstate : s.own.inThinkBlock = true ∧ s.own.currentReasoningTag = some tag ∧
        strip = s.own.thinkStripLeadingWs := by
      rw [place] at hplace
      split at hplace <;> cases hplace
      exact ⟨‹_›, ‹_›, rfl⟩
    obtain ⟨hin, htag, hstrip⟩ := hstate
    have hhere : emitHere text s = emitReasoning text s := by rw [emitHere, hplace]
    obtain ⟨hvisible, hreasoning⟩ := emitReasoning_texts text s
    rw [hhere]
    refine ⟨?_, ?_, ?_⟩
    · rw [place, emitReasoning_own]
      simp only [hin, htag, hstrip, Place.after]
    · rw [hvisible]
      exact (append_nil _).symm
    · rw [hreasoning, hstrip]
      rfl

end Chat

/-! ## Finding a tag -/

theorem opening_ne_nil (tag : ReasoningTag) : tag.opening ≠ [] := by cases tag <;> decide

theorem closing_ne_nil (tag : ReasoningTag) : tag.closing ≠ [] := by cases tag <;> decide

theorem exitsAt_outside {strip : Bool} :
    (Place.outside strip).ExitsAt text pos ↔ ∃ tag : ReasoningTag, OccursAt tag.opening text pos := by
  rw [Place.ExitsAt, Place.exits]
  constructor
  · rintro ⟨e, he, hat⟩
    obtain ⟨tag, -, rfl⟩ := mem_map.mp he
    exact ⟨tag, hat⟩
  · rintro ⟨tag, hat⟩
    have htag : tag ∈ ReasoningTag.all := by cases tag <;> decide
    exact ⟨_, mem_map_of_mem htag, hat⟩

theorem exitsAt_inside {strip : Bool} :
    (Place.inside tag strip).ExitsAt text pos ↔ OccursAt tag.closing text pos := by
  rw [Place.ExitsAt, Place.exits]
  simp only [mem_singleton, exists_eq_left]

variable {found : ℕ × ReasoningTag}

theorem mem_foundTags :
    found ∈ (ReasoningTag.all.filterMap fun tag =>
        (find tag.opening text).map fun pos => (pos, tag)) ↔
      find found.2.opening text = some found.1 := by
  have htag : ∀ tag : ReasoningTag, tag ∈ ReasoningTag.all := by
    intro tag
    cases tag <;> decide
  simp only [mem_filterMap, htag, true_and, Option.map_eq_some_iff]
  constructor
  · rintro ⟨tag, pos, hfind, rfl⟩
    exact hfind
  · intro hfind
    exact ⟨found.2, found.1, hfind, rfl⟩

theorem findNextOpenTag_eq_none (h : findNextOpenTag text = none)
    (tag : ReasoningTag) (pos : ℕ) : ¬ OccursAt tag.opening text pos := by
  rw [findNextOpenTag, argmin_eq_none, eq_nil_iff_forall_not_mem] at h
  cases hfind : find tag.opening text with
  | none => exact (find_eq_none_iff (opening_ne_nil tag)).mp hfind pos
  | some found => exact absurd (mem_foundTags.mpr hfind) (h (found, tag))

theorem findNextOpenTag_eq_some (h : findNextOpenTag text = some found) :
    OccursAt found.2.opening text found.1 ∧
      ∀ (tag : ReasoningTag) (pos : ℕ), OccursAt tag.opening text pos → found.1 ≤ pos := by
  have hmem := argmin_mem h
  obtain ⟨hat, -⟩ := (find_eq_some_iff (opening_ne_nil found.2)).mp (mem_foundTags.mp hmem)
  refine ⟨hat, ?_⟩
  intro tag pos hpos
  cases hfind : find tag.opening text with
  | none => exact absurd hpos ((find_eq_none_iff (opening_ne_nil tag)).mp hfind pos)
  | some first =>
    obtain ⟨-, hleast⟩ := (find_eq_some_iff (opening_ne_nil tag)).mp hfind
    have hmin : found.1 ≤ first := le_of_mem_argmin (a := (first, tag)) (mem_foundTags.mpr hfind) h
    exact hmin.trans (hleast pos hpos)

/-! ## The loop -/

namespace Chat

/-- What is split behind the second state is split, with what was emitted in between, behind
the first. -/
def Follows (text : List Char) (s t : Chat) : Prop :=
  ∀ rest v r, Splits t.place (t.own.tagBuffer ++ rest) v r →
    ∃ v' r', Splits s.place (s.own.tagBuffer ++ text ++ rest) v' r' ∧
      visibleText s.events ++ v' = visibleText t.events ++ v ∧
      reasoningText s.events ++ r' = reasoningText t.events ++ r

theorem Follows.refl (s : Chat) : Follows [] s s := by
  intro rest v r h
  rw [append_nil]
  exact ⟨v, r, h, rfl, rfl⟩

theorem Follows.trans {text text' : List Char} {s t u : Chat} (h : Follows text s t)
    (h' : Follows text' t u) : Follows (text ++ text') s u := by
  intro rest v r hsplit
  obtain ⟨v', r', hsplit', hv', hr'⟩ := h' rest v r hsplit
  rw [append_assoc] at hsplit'
  obtain ⟨v'', r'', hsplit'', hv'', hr''⟩ := h _ v' r' hsplit'
  refine ⟨v'', r'', ?_, hv''.trans hv', hr''.trans hr'⟩
  simpa only [append_assoc] using hsplit''

theorem tagStep_inside {s t : Chat} (hin : s.own.inThinkBlock = true)
    (htag : s.own.currentReasoningTag = some tag) (h : s.tagStep = some t) :
    ∃ pos, find tag.closing s.own.tagBuffer = some pos ∧ t = s.closeBlock tag pos := by
  rw [tagStep, if_pos hin, htag] at h
  obtain ⟨pos, hfind, rfl⟩ := Option.map_eq_some_iff.mp h
  exact ⟨pos, hfind, rfl⟩

theorem tagStep_outside {s t : Chat} (hin : s.own.inThinkBlock = false)
    (h : s.tagStep = some t) :
    ∃ found, findNextOpenTag s.own.tagBuffer = some found ∧ t = s.openBlock found.2 found.1 := by
  rw [tagStep, if_neg (by rw [hin]; decide)] at h
  obtain ⟨found, hfind, rfl⟩ := Option.map_eq_some_iff.mp h
  exact ⟨found, hfind, rfl⟩

theorem follows_of_exit {s t : Chat} {next : Place} {tag : List Char}
    (hmem : (tag, next) ∈ s.place.exits) (hat : OccursAt tag s.own.tagBuffer pos)
    (hfirst : ∀ pos', s.place.ExitsAt s.own.tagBuffer pos' → pos ≤ pos')
    (hemits : Emits s t next (s.place.visible (s.own.tagBuffer.take pos))
      (s.place.reasoning (s.own.tagBuffer.take pos)))
    (hbuffer : t.own.tagBuffer = s.own.tagBuffer.drop (pos + tag.length)) : Follows [] s t := by
  intro rest v r h
  have hlen := hat.length_le (Place.tag_ne_nil hmem)
  rw [hemits.place_eq, hbuffer, ← drop_append_of_le_length hlen] at h
  have hsplit := Splits.exit hmem (hat.append rest)
    (fun pos' hpos' => Place.first_append hmem hat hfirst rest hpos') h
  rw [take_append_of_le_length (by omega)] at hsplit
  refine ⟨_, _, by rw [append_nil]; exact hsplit, ?_, ?_⟩
  · rw [hemits.visible_eq, append_assoc]
  · rw [hemits.reasoning_eq, append_assoc]

theorem emitHere_inside (hin : s.own.inThinkBlock = true)
    (htag : s.own.currentReasoningTag = some tag) (text : List Char) :
    emitHere text s = emitReasoning text s := by
  rw [emitHere, place_of_inside hin htag]

theorem emitHere_outside (hin : s.own.inThinkBlock = false) (text : List Char) :
    emitHere text s = emitVisible text s := by
  rw [emitHere, place_of_not hin]

theorem follows_closeBlock
    (hin : s.own.inThinkBlock = true) (htag : s.own.currentReasoningTag = some tag)
    (hfind : find tag.closing s.own.tagBuffer = some pos) :
    Follows [] s (s.closeBlock tag pos) := by
  obtain ⟨hat, hleast⟩ := (find_eq_some_iff (closing_ne_nil tag)).mp hfind
  have hplace := place_of_inside hin htag
  have hemits := emits_emitHere (s.own.tagBuffer.take pos) s
  rw [emitHere_inside hin htag] at hemits
  have hmem : (tag.closing, Place.outside true) ∈ s.place.exits := by
    rw [hplace]
    exact mem_singleton_self _
  refine follows_of_exit hmem hat ?_ ?_ rfl
  · intro pos' hpos'
    rw [hplace, exitsAt_inside] at hpos'
    exact hleast pos' hpos'
  · exact ⟨rfl, hemits.visible_eq, hemits.reasoning_eq⟩

theorem follows_openBlock
    (hin : s.own.inThinkBlock = false) (hfind : findNextOpenTag s.own.tagBuffer = some found) :
    Follows [] s (s.openBlock found.2 found.1) := by
  obtain ⟨hat, hleast⟩ := findNextOpenTag_eq_some hfind
  have hplace := place_of_not hin
  have hemits := emits_emitHere (s.own.tagBuffer.take found.1) s
  rw [emitHere_outside hin] at hemits
  have hmem : (found.2.opening, Place.inside found.2 true) ∈ s.place.exits := by
    have hall : found.2 ∈ ReasoningTag.all := by cases found.2 <;> decide
    rw [hplace, Place.exits]
    exact mem_map.mpr ⟨found.2, hall, rfl⟩
  refine follows_of_exit hmem hat ?_ ?_ rfl
  · intro pos' hpos'
    rw [hplace, exitsAt_outside] at hpos'
    obtain ⟨tag, htag⟩ := hpos'
    exact hleast tag pos' htag
  · exact ⟨rfl, hemits.visible_eq, hemits.reasoning_eq⟩

theorem follows_tagStep {s t : Chat} (h : s.tagStep = some t) : Follows [] s t := by
  cases hin : s.own.inThinkBlock with
  | false =>
    obtain ⟨found, hfind, rfl⟩ := tagStep_outside hin h
    exact follows_openBlock hin hfind
  | true =>
    cases htag : s.own.currentReasoningTag with
    | some tag =>
      obtain ⟨pos, hfind, rfl⟩ := tagStep_inside hin htag h
      exact follows_closeBlock hin htag hfind
    | none =>
      -- A block with no tag is left without a word.
      rw [tagStep, if_pos hin, htag] at h
      obtain rfl := Option.some.inj h
      have hplace : s.place = .outside s.own.visibleStripLeadingWs := by
        rw [place, hin, htag]
      intro rest v r hsplit
      rw [append_nil, hplace]
      exact ⟨v, r, hsplit, rfl, rfl⟩

theorem follows_loop (n : ℕ) (s : Chat) : Follows [] s (loop tagStep n s) :=
  loop_invariant (P := fun t => Follows [] s t)
    (fun _ _ h hstep => h.trans (follows_tagStep hstep)) n (Follows.refl s)

theorem rounds_decrease {s t : Chat} (h : s.tagStep = some t) : t.rounds < s.rounds := by
  rw [rounds, rounds]
  cases hin : s.own.inThinkBlock with
  | false =>
    obtain ⟨found, hfind, rfl⟩ := tagStep_outside hin h
    have hlen := (findNextOpenTag_eq_some hfind).1.length_le (opening_ne_nil found.2)
    have hpos := length_pos_iff.mpr (opening_ne_nil found.2)
    have hbuffer : (s.openBlock found.2 found.1).own.tagBuffer.length =
        s.own.tagBuffer.length - (found.1 + found.2.opening.length) := length_drop
    have hblock : (s.openBlock found.2 found.1).own.inThinkBlock = true := rfl
    rw [hbuffer, hblock, if_pos rfl, if_neg (by decide)]
    omega
  | true =>
    rw [if_pos rfl]
    cases htag : s.own.currentReasoningTag with
    | some tag =>
      obtain ⟨pos, hfind, rfl⟩ := tagStep_inside hin htag h
      have hbuffer : (s.closeBlock tag pos).own.tagBuffer.length =
          s.own.tagBuffer.length - (pos + tag.closing.length) := length_drop
      have hblock : (s.closeBlock tag pos).own.inThinkBlock = false := rfl
      rw [hbuffer, hblock, if_neg (by decide)]
      omega
    | none =>
      rw [tagStep, if_pos hin, htag] at h
      obtain rfl := Option.some.inj h
      show 2 * s.own.tagBuffer.length + 0 < _
      omega

theorem tagStep_loop (s : Chat) : (loop tagStep s.rounds s).tagStep = none :=
  loop_done rounds (fun _ _ h => rounds_decrease h) (le_refl _)

theorem not_exitsAt_of_tagStep (h : s.tagStep = none) (pos : ℕ) :
    ¬ s.place.ExitsAt s.own.tagBuffer pos := by
  rw [tagStep] at h
  cases hin : s.own.inThinkBlock with
  | false =>
    rw [if_neg (by rw [hin]; decide), Option.map_eq_none_iff] at h
    rw [place_of_not hin, exitsAt_outside]
    rintro ⟨tag, hat⟩
    exact findNextOpenTag_eq_none h tag pos hat
  | true =>
    rw [if_pos hin] at h
    cases htag : s.own.currentReasoningTag with
    | none =>
      rw [htag] at h
      cases h
    | some tag =>
      rw [htag, Option.map_eq_none_iff, find_eq_none_iff (closing_ne_nil tag)] at h
      rw [place_of_inside hin htag, exitsAt_inside]
      exact h pos

theorem settle_eq (s : Chat) :
    s.settle =
      (emitHere (s.own.tagBuffer.take (s.own.tagBuffer.length - s.place.heldBack s.own.tagBuffer))
        s).setBuffer
        (s.own.tagBuffer.drop (s.own.tagBuffer.length - s.place.heldBack s.own.tagBuffer)) := by
  rw [settle]
  split
  · next tag hin htag =>
      rw [emitHere_inside hin htag, place_of_inside hin htag]
      simp only [splitBuffer, splitAt_eq, Place.heldBack]
  · next hother =>
      have hplace : s.place = .outside s.own.visibleStripLeadingWs := by
        rw [place]
        split
        · next h h' => exact (hother _ h h').elim
        · rfl
      rw [emitHere, hplace]
      simp only [splitBuffer, splitAt_eq, Place.heldBack]

theorem follows_settle (h : s.tagStep = none) : Follows [] s s.settle := by
  have hle := s.place.heldBack_le s.own.tagBuffer
  have hemits := emits_emitHere
    (s.own.tagBuffer.take (s.own.tagBuffer.length - s.place.heldBack s.own.tagBuffer)) s
  rw [settle_eq]
  intro rest v r hsplit
  have hplace := hemits.place_eq
  have hsafe : ∀ pos < s.own.tagBuffer.length - s.place.heldBack s.own.tagBuffer,
      ¬ s.place.ExitsAt (s.own.tagBuffer ++ rest) pos :=
    fun pos hpos => Place.not_exitsAt_of_lt (not_exitsAt_of_tagStep h) rest hpos
  have hcut : s.own.tagBuffer.take (s.own.tagBuffer.length - s.place.heldBack s.own.tagBuffer) =
      (s.own.tagBuffer ++ rest).take
        (s.own.tagBuffer.length - s.place.heldBack s.own.tagBuffer) :=
    (take_append_of_le_length (by omega)).symm
  have hrest : s.own.tagBuffer.drop (s.own.tagBuffer.length - s.place.heldBack s.own.tagBuffer) ++
      rest = (s.own.tagBuffer ++ rest).drop
        (s.own.tagBuffer.length - s.place.heldBack s.own.tagBuffer) :=
    (drop_append_of_le_length (by omega)).symm
  have hbehind : Splits
      (s.place.after ((s.own.tagBuffer ++ rest).take
        (s.own.tagBuffer.length - s.place.heldBack s.own.tagBuffer)))
      ((s.own.tagBuffer ++ rest).drop
        (s.own.tagBuffer.length - s.place.heldBack s.own.tagBuffer)) v r := by
    rw [← hcut, ← hrest, ← hplace]
    exact hsplit
  refine ⟨_, _, by rw [append_nil]; exact hbehind.emit hsafe, ?_, ?_⟩
  · rw [← hcut, ← append_assoc]
    exact congrArg (· ++ v) hemits.visible_eq.symm
  · rw [← hcut, ← append_assoc]
    exact congrArg (· ++ r) hemits.reasoning_eq.symm

/-! ## A whole text -/

theorem follows_processContentThinkTags (content : List Char) (s : Chat) :
    Follows content s (processContentThinkTags content s) := by
  have happend : Follows content s (s.setBuffer (s.own.tagBuffer ++ content)) := by
    intro rest v r h
    exact ⟨v, r, h, rfl, rfl⟩
  have hloop := happend.trans (follows_loop (s.setBuffer (s.own.tagBuffer ++ content)).rounds _)
  have hsettle := hloop.trans (follows_settle (tagStep_loop _))
  rw [append_nil, append_nil] at hsettle
  exact hsettle

theorem follows_foldl (chunks : List (List Char)) (s : Chat) :
    Follows chunks.flatten s (chunks.foldl (fun s c => processContentThinkTags c s) s) := by
  induction chunks generalizing s with
  | nil => exact Follows.refl s
  | cons content chunks ih =>
    rw [flatten_cons, foldl_cons]
    exact (follows_processContentThinkTags content s).trans (ih _)

/-- The buffer holds no tag and nothing that would be stripped, and a block has its tag. -/
structure Settled (s : Chat) : Prop where
  no_exit : ∀ pos, ¬ s.place.ExitsAt s.own.tagBuffer pos
  head : s.own.tagBuffer = [] ∨ s.own.tagBuffer.head? = some '<'
  tagged : s.own.inThinkBlock = true → s.own.currentReasoningTag ≠ none

theorem Settled.new (segmentId : ProviderSegmentId) : (Chat.new segmentId).Settled := by
  refine ⟨?_, .inl rfl, fun h => absurd h Bool.false_ne_true⟩
  rintro pos ⟨⟨tag, next⟩, hmem, hat⟩
  have hlen := hat.length_le (Place.tag_ne_nil hmem)
  have hpos := length_pos_iff.mpr (Place.tag_ne_nil hmem)
  replace hlen : pos + tag.length ≤ 0 := hlen
  omega

theorem emitHere_block (text : List Char) (s : Chat) :
    (emitHere text s).own.inThinkBlock = s.own.inThinkBlock ∧
      (emitHere text s).own.currentReasoningTag = s.own.currentReasoningTag := by
  rw [emitHere]
  split
  · rw [emitVisible_own]
    exact ⟨rfl, rfl⟩
  · rw [emitReasoning_own]
    exact ⟨rfl, rfl⟩

theorem settled_processContentThinkTags (content : List Char) (s : Chat) :
    (processContentThinkTags content s).Settled := by
  rw [processContentThinkTags]
  generalize hlast : loop tagStep _ _ = last
  have hnone : last.tagStep = none := by
    rw [← hlast]
    exact tagStep_loop _
  have hbuffer : last.settle.own.tagBuffer =
      last.own.tagBuffer.drop
        (last.own.tagBuffer.length - last.place.heldBack last.own.tagBuffer) := by
    rw [settle_eq]
    rfl
  have hplace : ∀ text pos, last.settle.place.ExitsAt text pos ↔ last.place.ExitsAt text pos := by
    intro text pos
    rw [settle_eq]
    have hemits := emits_emitHere
      (last.own.tagBuffer.take
        (last.own.tagBuffer.length - last.place.heldBack last.own.tagBuffer)) last
    have hsame := hemits.place_eq
    show (emitHere _ last).place.ExitsAt text pos ↔ _
    rw [hsame, Place.exitsAt_after]
  refine ⟨?_, ?_, ?_⟩
  · intro pos hpos
    rw [hplace, hbuffer, Place.exitsAt_drop] at hpos
    exact not_exitsAt_of_tagStep hnone _ hpos
  · rw [hbuffer]
    exact last.place.head_heldBack last.own.tagBuffer
  · rw [settle_eq]
    intro hin htag
    have hblock := emitHere_block
      (last.own.tagBuffer.take
        (last.own.tagBuffer.length - last.place.heldBack last.own.tagBuffer)) last
    replace hin : last.own.inThinkBlock = true := hblock.1 ▸ hin
    replace htag : last.own.currentReasoningTag = none := hblock.2 ▸ htag
    rw [tagStep, if_pos hin, htag] at hnone
    cases hnone

theorem lead_of_head (strip : Bool) (h : text = [] ∨ text.head? = some '<') :
    lead strip text = text := by
  cases strip with
  | false => rfl
  | true =>
    cases text with
    | nil => rfl
    | cons c rest =>
      have hc : c = '<' := by simpa using h
      rw [hc]
      have hwhite : ¬ isWhiteSpace '<' = true := by decide
      exact dropWhile_cons_of_neg hwhite

theorem flushBuffer_outside (hin : s.own.inThinkBlock = false) (hempty : s.own.tagBuffer ≠ []) :
    s.flushBuffer = emitVisibleText (s.setBuffer []) s.own.tagBuffer := by
  rw [flushBuffer, if_neg hempty]
  show (if s.own.inThinkBlock = true then _ else _) = _
  rw [hin]
  rfl

theorem flushBuffer_inside (hin : s.own.inThinkBlock = true) (hempty : s.own.tagBuffer ≠ []) :
    s.flushBuffer = emitReasoningText (s.setBuffer []) s.own.tagBuffer := by
  rw [flushBuffer, if_neg hempty]
  show (if s.own.inThinkBlock = true then _ else _) = _
  rw [hin]
  rfl

theorem flushBuffer_texts (h : s.Settled) :
    visibleText s.flushBuffer.events =
        visibleText s.events ++ s.place.visible s.own.tagBuffer ∧
      reasoningText s.flushBuffer.events =
        reasoningText s.events ++ s.place.reasoning s.own.tagBuffer := by
  cases hin : s.own.inThinkBlock with
  | false =>
    rw [place_of_not hin, Place.visible, Place.reasoning, lead_of_head _ h.head,
      append_nil]
    by_cases hempty : s.own.tagBuffer = []
    · rw [flushBuffer, if_pos hempty, hempty, append_nil]
      exact ⟨rfl, rfl⟩
    · rw [flushBuffer_outside hin hempty]
      exact ⟨visibleText_emitVisibleText _ _, reasoningText_emitVisibleText _ _⟩
  | true =>
    obtain ⟨tag, htag⟩ := Option.ne_none_iff_exists'.mp (h.tagged hin)
    rw [place_of_inside hin htag, Place.visible, Place.reasoning, lead_of_head _ h.head,
      append_nil]
    by_cases hempty : s.own.tagBuffer = []
    · rw [flushBuffer, if_pos hempty, hempty, append_nil]
      exact ⟨rfl, rfl⟩
    · rw [flushBuffer_inside hin hempty]
      exact ⟨visibleText_emitReasoningText _ _, reasoningText_emitReasoningText _ _⟩

/-- The events that hold no text. -/
def Silent (event : StreamEvent) : Prop := visiblePart event = [] ∧ reasoningPart event = []

theorem texts_append_silent {events tail : List StreamEvent} (h : ∀ e ∈ tail, Silent e) :
    visibleText (events ++ tail) = visibleText events ∧
      reasoningText (events ++ tail) = reasoningText events := by
  have hvisible : visibleText tail = [] := flatMap_eq_nil_iff.mpr fun e he => (h e he).1
  have hreasoning : reasoningText tail = [] := flatMap_eq_nil_iff.mpr fun e he => (h e he).2
  rw [visibleText_append, reasoningText_append, hvisible, hreasoning, append_nil,
    append_nil]
  exact ⟨rfl, rfl⟩

theorem finalizeStream_texts (s : Chat) :
    visibleText s.finalizeStream.events = visibleText s.flushBuffer.events ∧
      reasoningText s.finalizeStream.events = reasoningText s.flushBuffer.events := by
  have hcomplete : ∀ t : Chat, ∀ e ∈ t.own.toolCalls.toList.map
      (fun entry => StreamEvent.toolCallComplete entry.1), Silent e := by
    intro t e he
    obtain ⟨entry, -, rfl⟩ := mem_map.mp he
    exact ⟨rfl, rfl⟩
  have hclose : ∀ t : Chat, ∃ tail, t.closeAtEnd.events = t.events ++ tail ∧
      ∀ e ∈ tail, Silent e := by
    intro t
    rw [closeAtEnd]
    split
    · dsimp only
      split
      · exact ⟨_, rfl, forall_mem_singleton.mpr ⟨rfl, rfl⟩⟩
      · refine ⟨_, append_assoc .., ?_⟩
        exact forall_mem_cons.mpr ⟨⟨rfl, rfl⟩, forall_mem_singleton.mpr ⟨rfl, rfl⟩⟩
    · exact ⟨[], (append_nil _).symm, fun e he => (nomatch he)⟩
  obtain ⟨tail, htail, hsilent⟩ := hclose s.flushBuffer.completeToolCalls
  have hall : s.finalizeStream.events = s.flushBuffer.events ++
      ((s.flushBuffer.own.toolCalls.toList.map fun entry => .toolCallComplete entry.1) ++
        (tail ++ [.done s.flushBuffer.completeToolCalls.closeAtEnd.segment.usage])) := by
    show s.flushBuffer.completeToolCalls.closeAtEnd.events ++ [_] = _
    rw [htail]
    simp only [completeToolCalls, append_assoc]
  rw [hall]
  refine texts_append_silent fun e he => ?_
  rcases mem_append.mp he with he | he
  · exact hcomplete _ e he
  · rcases mem_append.mp he with he | he
    · exact hsilent e he
    · rw [mem_singleton.mp he]
      exact ⟨rfl, rfl⟩

theorem settled_foldl (chunks : List (List Char)) (h : s.Settled) :
    (chunks.foldl (fun s c => processContentThinkTags c s) s).Settled := by
  induction chunks generalizing s with
  | nil => exact h
  | cons content chunks ih => exact ih (settled_processContentThinkTags content s)

end Chat

/-- The chunks of a text one after another, and the end of the stream. -/
def splitChunks (segmentId : ProviderSegmentId) (chunks : List (List Char)) : Chat :=
  (chunks.foldl (fun s content => Chat.processContentThinkTags content s)
    (Chat.new segmentId)).finalizeStream

theorem splits_splitChunks (segmentId : ProviderSegmentId) (chunks : List (List Char)) :
    Splits (.outside false) chunks.flatten
      (visibleText (splitChunks segmentId chunks).events)
      (reasoningText (splitChunks segmentId chunks).events) := by
  have hsettled := Chat.settled_foldl chunks (Chat.Settled.new segmentId)
  have hfollows := Chat.follows_foldl chunks (Chat.new segmentId)
  rw [splitChunks]
  generalize chunks.foldl (fun s content => Chat.processContentThinkTags content s)
    (Chat.new segmentId) = last at hsettled hfollows
  obtain ⟨hvisible, hreasoning⟩ := Chat.flushBuffer_texts hsettled
  obtain ⟨hvisible', hreasoning'⟩ := Chat.finalizeStream_texts last
  obtain ⟨v, r, hsplit, hv, hr⟩ :=
    hfollows [] _ _ (.rest (by rw [append_nil]; exact hsettled.no_exit))
  rw [append_nil] at hsplit hv hr
  rw [hvisible', hreasoning', hvisible, hreasoning, ← hv, ← hr]
  exact hsplit

/-- **Splitting does not depend on the chunks**: however a text is cut, its visible text and
its reasoning are those of the whole text, and those of the one split that the text has. -/
theorem reasoning_split (segmentId : ProviderSegmentId) (chunks : List (List Char)) :
    let events := (splitChunks segmentId chunks).events
    let whole := (splitChunks segmentId [chunks.flatten]).events
    visibleText events = visibleText whole ∧ reasoningText events = reasoningText whole ∧
      ∀ v r, Splits (.outside false) chunks.flatten v r ↔
        visibleText events = v ∧ reasoningText events = r := by
  have hsplit := splits_splitChunks segmentId chunks
  have hwhole := splits_splitChunks segmentId [chunks.flatten]
  rw [List.flatten_singleton] at hwhole
  obtain ⟨hvisible, hreasoning⟩ := hsplit.unique hwhole
  refine ⟨hvisible, hreasoning, ?_⟩
  intro v r
  constructor
  · exact fun h => hsplit.unique h
  · rintro ⟨rfl, rfl⟩
    exact hsplit

example :
    let events :=
      (splitChunks "s" ["a<thi".toList, "nk> b<thought></th".toList, "ink> c<".toList]).events
    visibleText events = "ac<".toList ∧ reasoningText events = "b<thought>".toList := by
  decide

end Chelix.Providers
