import Chelix.Agents.ToolParsing
import Mathlib.Data.Finset.Card

/-!
# What the collectors find

Each collector walks from one occurrence of its marker to the next and finds at most one block
there.  The bare objects are the exception: what is looked for is a key, and the block is the
object before it.
-/

namespace Chelix.Agents

open Chelix.Library List

/-- Each step goes past an occurrence of a marker, and finds at most one block there. -/
def Walks (text marker : List Char) (ok : ParsedBlock → Prop)
    (step : BlockScan → Option BlockScan) : Prop :=
  ∀ s t, step s = some t → ∃ i, s.searchFrom ≤ i ∧ OccursAt marker text i ∧ i < t.searchFrom ∧
    (t.blocks = s.blocks ∨ ∃ block, t.blocks = s.blocks ++ [block] ∧ block.start = i ∧
      block.stop = t.searchFrom ∧ ok block)

namespace Walks

variable {text marker : List Char} {ok : ParsedBlock → Prop}
  {step : BlockScan → Option BlockScan}

theorem mem_blocks (h : Walks text marker ok step) (n : ℕ) (s : BlockScan) :
    ∀ block ∈ (loop step n s).blocks, block ∈ s.blocks ∨
      OccursAt marker text block.start ∧ block.start < block.stop ∧ ok block := by
  refine loop_invariant (P := fun t : BlockScan => ∀ block ∈ t.blocks, block ∈ s.blocks ∨
    OccursAt marker text block.start ∧ block.start < block.stop ∧ ok block)
    (fun t u ht hstep block hblock => ?_) n fun block hblock => .inl hblock
  obtain ⟨i, -, hocc, hlt, hsame | ⟨new, hnew, hstart, hstop, hok⟩⟩ := h t u hstep
  · exact ht block (hsame ▸ hblock)
  · rw [hnew] at hblock
    rcases mem_append.mp hblock with hblock | hblock
    · exact ht block hblock
    · rw [mem_singleton.mp hblock, hstart, hstop]
      exact .inr ⟨hocc, hlt, hok⟩

theorem blocks_eq (h : Walks text marker ok step) (hmarker : marker ≠ [])
    (hno : ∀ block, block.start < text.length → ¬ok block) (n : ℕ) (s : BlockScan) :
    (loop step n s).blocks = s.blocks := by
  refine loop_invariant (P := fun t : BlockScan => t.blocks = s.blocks) (fun t u ht hstep => ?_) n rfl
  obtain ⟨i, -, hocc, hlt, hsame | ⟨new, -, hstart, -, hok⟩⟩ := h t u hstep
  · exact hsame.trans ht
  · have hlen := hocc.length_le hmarker
    have hpos := length_pos_iff.mpr hmarker
    exact absurd hok (hno new (by omega))

end Walks

section Collectors

variable (fromStr : FromStr) (text : List Char)

/-- A block that is a fence: it ends with the next fence, and what is between is the call. -/
def FencedBlock (block : ParsedBlock) : Prop :=
  ∃ endRel, find fence (text.drop (block.start + fenceMarker.length)) = some endRel ∧
    block.stop = block.start + fenceMarker.length + endRel + 3 ∧
    tryParseToolJson fromStr (trimText
      ((text.drop (block.start + fenceMarker.length)).take endRel)) = some block.toolCall

theorem fencedStep_walks : Walks text fenceMarker (FencedBlock fromStr text)
    (fencedStep fromStr text) := by
  intro s t hstep
  unfold fencedStep at hstep
  split at hstep
  · cases hstep
  rename_i absStart hfind
  obtain ⟨hle, hocc, -⟩ := findFrom_spec (by decide) hfind
  simp only at hstep
  split at hstep
  · cases hstep
  rename_i endRel hend
  refine ⟨absStart, hle, hocc, ?_⟩
  split at hstep
  · rename_i parsed hparsed
    obtain rfl := Option.some.inj hstep
    exact ⟨by simp only; omega, .inr ⟨_, rfl, rfl, rfl, endRel, hend, rfl, hparsed⟩⟩
  · obtain rfl := Option.some.inj hstep
    exact ⟨by simp only; omega, .inl rfl⟩

/-- The start of a block is not in the code ranges. -/
def Outside (ranges : List (ℕ × ℕ)) (block : ParsedBlock) : Prop :=
  isInsideRanges block.start ranges = false

theorem length_stripPrefix {lead text rest : List Char} (h : stripPrefix lead text = some rest) :
    rest.length = text.length - lead.length := by
  unfold stripPrefix at h
  split at h
  · obtain rfl := Option.some.inj h
    exact length_drop
  · cases h

theorem le_wrapperEnd (text : List Char) (absEnd : ℕ) (h : absEnd ≤ text.length) :
    absEnd ≤ wrapperEnd text absEnd := by
  unfold wrapperEnd
  split
  · rename_i rest hrest
    have hlen := length_stripPrefix hrest
    have hle := (dropWhile_suffix (p := isWhiteSpace) (l := text.drop absEnd)).length_le
    rw [length_drop] at hle
    unfold trimStart at hlen
    omega
  · exact le_refl _

section Steps

variable {ok : ParsedBlock → Prop} {s t : BlockScan} {i next : ℕ} {block : ParsedBlock}

theorem passed (hstep : some { s with searchFrom := next } = some t) (hlt : i < next) :
    i < t.searchFrom ∧ (t.blocks = s.blocks ∨ ∃ block, t.blocks = s.blocks ++ [block] ∧
      block.start = i ∧ block.stop = t.searchFrom ∧ ok block) := by
  obtain rfl := Option.some.inj hstep
  exact ⟨hlt, .inl rfl⟩

theorem found {found : Bool} (hstep : some ⟨next, if found then s.blocks ++ [block] else s.blocks⟩ =
      some t) (hlt : i < next) (hstart : block.start = i) (hstop : block.stop = next)
    (hok : ok block) :
    i < t.searchFrom ∧ (t.blocks = s.blocks ∨ ∃ block, t.blocks = s.blocks ++ [block] ∧
      block.start = i ∧ block.stop = t.searchFrom ∧ ok block) := by
  obtain rfl := Option.some.inj hstep
  refine ⟨hlt, ?_⟩
  dsimp only
  split
  · exact .inr ⟨_, rfl, hstart, hstop, hok⟩
  · exact .inl rfl

end Steps

theorem functionStep_walks (ranges : List (ℕ × ℕ)) : Walks text functionMarker (Outside ranges)
    (functionStep fromStr text ranges) := by
  intro s t hstep
  unfold functionStep at hstep
  split at hstep
  · cases hstep
  rename_i absStart hfind
  obtain ⟨hle, hocc, -⟩ := findFrom_spec (by decide) hfind
  have hmarker : functionMarker.length = 10 := rfl
  refine ⟨absStart, hle, hocc, ?_⟩
  simp only at hstep
  split at hstep
  · exact passed hstep (by omega)
  rename_i hinside
  have houtside : isInsideRanges absStart ranges = false := Bool.eq_false_of_not_eq_true hinside
  split at hstep
  · cases hstep
  split at hstep
  · exact passed hstep (by omega)
  split at hstep
  · exact passed hstep (by omega)
  rename_i openEndRel _ _ _ bodyEndRel hbody
  have hfits := ((find_eq_some_iff (by decide)).mp hbody).1.length_le (by decide)
  have hclose : "</function>".toList.length = 11 := rfl
  rw [length_drop] at hfits
  have hend := le_wrapperEnd text (absStart + functionMarker.length + openEndRel + 1 +
    bodyEndRel + "</function>".toList.length) (by omega)
  exact found hstep (by omega) rfl rfl houtside

theorem invokeStep_walks (ranges : List (ℕ × ℕ)) : Walks text invokeMarker (Outside ranges)
    (invokeStep fromStr text ranges) := by
  intro s t hstep
  unfold invokeStep at hstep
  split at hstep
  · cases hstep
  rename_i absStart hfind
  obtain ⟨hle, hocc, -⟩ := findFrom_spec (by decide) hfind
  have hmarker : invokeMarker.length = 7 := rfl
  refine ⟨absStart, hle, hocc, ?_⟩
  simp only at hstep
  split at hstep
  · exact passed hstep (by omega)
  rename_i hinside
  have houtside : isInsideRanges absStart ranges = false := Bool.eq_false_of_not_eq_true hinside
  split at hstep
  · cases hstep
  split at hstep
  · exact passed hstep (by omega)
  split at hstep
  · exact passed hstep (by omega)
  split at hstep
  · exact passed hstep (by omega)
  exact found hstep (by omega) rfl rfl houtside

theorem zhipuStep_walks (ranges : List (ℕ × ℕ)) : Walks text zhipuOpen (Outside ranges)
    (zhipuStep fromStr text ranges) := by
  intro s t hstep
  unfold zhipuStep at hstep
  split at hstep
  · cases hstep
  rename_i absStart hfind
  obtain ⟨hle, hocc, -⟩ := findFrom_spec (by decide) hfind
  have hmarker : zhipuOpen.length = 11 := rfl
  refine ⟨absStart, hle, hocc, ?_⟩
  simp only at hstep
  split at hstep
  · exact passed hstep (by omega)
  rename_i hinside
  have houtside : isInsideRanges absStart ranges = false := Bool.eq_false_of_not_eq_true hinside
  split at hstep
  · cases hstep
  split at hstep
  · exact passed hstep (by omega)
  split at hstep
  · exact passed hstep (by omega)
  split at hstep
  · exact passed hstep (by omega)
  exact found hstep (by omega) rfl rfl houtside

/-- A block that is a bare object: the last one that begins before a key which is in no code
range. -/
def BareAt (ranges : List (ℕ × ℕ)) (absHit : ℕ) (block : ParsedBlock) : Prop :=
  OccursAt toolKey text absHit ∧ isInsideRanges absHit ranges = false ∧
    rfind ['{'] (text.take absHit) = some block.start ∧ block.stop = bareObjectEnd text block.start ∧
    tryParseToolJson fromStr ((text.drop block.start).take (block.stop - block.start)) =
      some block.toolCall

def BareBlock (ranges : List (ℕ × ℕ)) (block : ParsedBlock) : Prop :=
  ∃ absHit, BareAt fromStr text ranges absHit block

/-- A step passes a key before which there is no call, or none that begins in no block yet; or it
finds the object before it. -/
theorem bareJsonStep_spec {ranges : List (ℕ × ℕ)} {s t : BlockScan}
    (hstep : bareJsonStep fromStr text ranges s = some t) :
    ∃ absHit, findFrom toolKey text s.searchFrom = some absHit ∧
      ((t = { s with searchFrom := absHit + toolKey.length } ∧
          (isInsideRanges absHit ranges = false → ∀ k, rfind ['{'] (text.take absHit) = some k →
            (tryParseToolJson fromStr ((text.drop k).take (bareObjectEnd text k - k))).isSome = true →
            ∃ b ∈ s.blocks, b.start ≤ k ∧ k < b.stop)) ∨
        ∃ block, BareAt fromStr text ranges absHit block ∧
          (∀ b ∈ s.blocks, ¬(b.start ≤ block.start ∧ block.start < b.stop)) ∧
          t = { searchFrom := block.stop, blocks := s.blocks ++ [block] }) := by
  unfold bareJsonStep at hstep
  split at hstep
  · cases hstep
  rename_i absHit hfind
  obtain ⟨-, hocc, -⟩ := findFrom_spec (by decide) hfind
  refine ⟨absHit, hfind, ?_⟩
  simp only at hstep
  split at hstep
  · rename_i hinside
    refine .inl ⟨(Option.some.inj hstep).symm, fun houtside => ?_⟩
    rw [hinside] at houtside
    cases houtside
  rename_i hinside
  split at hstep
  · rename_i hnone
    refine .inl ⟨(Option.some.inj hstep).symm, fun _ k hobject => ?_⟩
    rw [hnone] at hobject
    cases hobject
  rename_i objStart hobj
  split at hstep
  · rename_i hcovered
    refine .inl ⟨(Option.some.inj hstep).symm, fun _ k hobject _ => ?_⟩
    obtain rfl := Option.some.inj (hobj.symm.trans hobject)
    obtain ⟨b, hb, hin⟩ := any_eq_true.mp hcovered
    rw [Bool.and_eq_true, decide_eq_true_eq, decide_eq_true_eq] at hin
    exact ⟨b, hb, hin⟩
  rename_i hcovered
  split at hstep
  · rename_i toolCall hparse
    obtain rfl := Option.some.inj hstep
    refine .inr ⟨{ toolCall, start := objStart, stop := bareObjectEnd text objStart },
      ⟨hocc, Bool.eq_false_of_not_eq_true hinside, hobj, rfl, hparse⟩,
      fun b hb hin => hcovered ?_, rfl⟩
    refine any_eq_true.mpr ⟨b, hb, ?_⟩
    rw [Bool.and_eq_true, decide_eq_true_eq, decide_eq_true_eq]
    exact hin
  · rename_i hparse
    refine .inl ⟨(Option.some.inj hstep).symm, fun _ k hobject hcall => ?_⟩
    obtain rfl := Option.some.inj (hobj.symm.trans hobject)
    rw [hparse] at hcall
    cases hcall

theorem lt_objectEnd {scan : Scan} {depth : ℤ} {i j : ℕ} {chars : List Char}
    (h : objectEnd scan depth i chars = some j) : i < j := by
  induction chars generalizing scan depth i with
  | nil => cases scan <;> cases h
  | cons ch chars ih =>
    cases scan with
    | code =>
      unfold objectEnd at h
      split at h
      · have := ih h
        omega
      · split at h
        · split at h
          · have := Option.some.inj h
            omega
          · have := ih h
            omega
        · have := ih h
          omega
    | string =>
      have := ih (show objectEnd (Scan.string.next ch) depth (i + 1) chars = some j from h)
      omega
    | escape =>
      have := ih (show objectEnd (Scan.escape.next ch) depth (i + 1) chars = some j from h)
      omega

variable {fromStr text}

namespace BareBlock

variable {ranges : List (ℕ × ℕ)} {block : ParsedBlock}

theorem occurs (h : BareBlock fromStr text ranges block) : OccursAt ['{'] text block.start := by
  obtain ⟨absHit, -, -, hrfind, -⟩ := h
  exact (occursAt_rfind (cons_ne_nil _ _) hrfind).trans ((List.take_prefix _ _).drop _)

theorem start_lt_stop (h : BareBlock fromStr text ranges block) : block.start < block.stop := by
  have hlen := h.occurs.length_le (cons_ne_nil _ _)
  obtain ⟨absHit, -, -, -, hstop, -⟩ := h
  rw [hstop]
  unfold bareObjectEnd
  rw [length_singleton] at hlen
  split
  · rename_i i hi
    have := lt_objectEnd hi
    omega
  · omega

end BareBlock

theorem mem_bareJson (ranges : List (ℕ × ℕ)) (n : ℕ) (s : BlockScan) :
    (∀ block ∈ s.blocks, block ∈ (loop (bareJsonStep fromStr text ranges) n s).blocks) ∧
    ∀ block ∈ (loop (bareJsonStep fromStr text ranges) n s).blocks,
      block ∈ s.blocks ∨ BareBlock fromStr text ranges block := by
  refine loop_invariant (P := fun t : BlockScan => (∀ block ∈ s.blocks, block ∈ t.blocks) ∧
    ∀ block ∈ t.blocks, block ∈ s.blocks ∨ BareBlock fromStr text ranges block)
    (fun t u ht hstep => ?_) n ⟨fun _ hblock => hblock, fun _ hblock => .inl hblock⟩
  obtain ⟨hkept, hfound⟩ := ht
  obtain ⟨absHit, -, ⟨rfl, -⟩ | ⟨new, hnew, -, rfl⟩⟩ := bareJsonStep_spec fromStr text hstep
  · exact ⟨hkept, hfound⟩
  · refine ⟨fun block hblock => mem_append_left _ (hkept block hblock), fun block hblock => ?_⟩
    rcases mem_append.mp hblock with hblock | hblock
    · exact hfound block hblock
    · rw [mem_singleton.mp hblock]
      exact .inr ⟨absHit, hnew⟩

/-- The positions of a text that are in no block. -/
def uncovered (text : List Char) (blocks : List ParsedBlock) : Finset ℕ :=
  (Finset.range text.length).filter fun k => ∀ b ∈ blocks, ¬(b.start ≤ k ∧ k < b.stop)

/-- The search for bare objects is over: it goes back only where it covers more of the text. -/
theorem bareJson_done (ranges : List (ℕ × ℕ)) (blocks : List ParsedBlock) :
    bareJsonStep fromStr text ranges (loop (bareJsonStep fromStr text ranges)
      ((text.length + 1) * (text.length + 1)) { searchFrom := 0, blocks }) = none := by
  refine loop_done (fun s => (uncovered text s.blocks).card * (text.length + 1) +
    (text.length - s.searchFrom)) (fun s t hstep => ?_) ?_
  · obtain ⟨absHit, hfind, ⟨rfl, -⟩ | ⟨block, hat, hfree, rfl⟩⟩ :=
      bareJsonStep_spec fromStr text hstep
    · obtain ⟨hle, hocc, -⟩ := findFrom_spec (by decide) hfind
      have hlen := hocc.length_le (by decide)
      have hkey : toolKey.length = 6 := rfl
      dsimp only
      omega
    · have hblock : BareBlock fromStr text ranges block := ⟨absHit, hat⟩
      have hlen := hblock.occurs.length_le (cons_ne_nil _ _)
      rw [length_singleton] at hlen
      have hstart : block.start ∈ uncovered text s.blocks :=
        Finset.mem_filter.mpr ⟨Finset.mem_range.mpr (by omega), hfree⟩
      have hsub : uncovered text (s.blocks ++ [block]) ⊆ (uncovered text s.blocks).erase
          block.start := by
        intro k hk
        obtain ⟨hrange, hnone⟩ := Finset.mem_filter.mp hk
        refine Finset.mem_erase.mpr ⟨?_, Finset.mem_filter.mpr ⟨hrange, fun b hb =>
          hnone b (mem_append_left _ hb)⟩⟩
        rintro rfl
        exact hnone block (mem_append_right _ mem_cons_self)
          ⟨le_refl _, hblock.start_lt_stop⟩
      have hcard := Finset.card_le_card hsub
      rw [Finset.card_erase_of_mem hstart] at hcard
      have hpos := Finset.card_pos.mpr ⟨_, hstart⟩
      have hmul : (uncovered text (s.blocks ++ [block])).card * (text.length + 1) +
          (text.length + 1) ≤ (uncovered text s.blocks).card * (text.length + 1) := by
        rw [← Nat.succ_mul]
        exact Nat.mul_le_mul_right _ (by omega)
      dsimp only
      omega
  · have hcard : (uncovered text blocks).card ≤ text.length :=
      (Finset.card_filter_le _ _).trans (Finset.card_range _).le
    have hmul := Nat.mul_le_mul_right (text.length + 1) hcard
    have hsquare : (text.length + 1) * (text.length + 1) =
        text.length * (text.length + 1) + (text.length + 1) := Nat.succ_mul _ _
    dsimp only
    omega

/-! ## All blocks -/

/-- Where a block comes from: a fence, tags outside of code, or a bare object. -/
inductive BlockSource (fromStr : FromStr) (text : List Char) (block : ParsedBlock) : Prop
  | fenced : OccursAt fenceMarker text block.start → FencedBlock fromStr text block →
      BlockSource fromStr text block
  | tags : OccursAt ['<'] text block.start → Outside (markdownCodeRanges text) block →
      BlockSource fromStr text block
  | bare : BareBlock fromStr text (markdownCodeRanges text) block → BlockSource fromStr text block

/-- **Where the blocks come from.** -/
theorem mem_collectBlocks {block : ParsedBlock} (h : block ∈ collectBlocks fromStr text) :
    block.start < block.stop ∧ BlockSource fromStr text block := by
  have htag {marker : List Char} (hmarker : ['<'] <+: marker)
      (hocc : OccursAt marker text block.start) : OccursAt ['<'] text block.start :=
    hmarker.trans hocc
  unfold collectBlocks at h
  rcases (mem_bareJson _ _ _).2 block h with h | h
  · rcases (zhipuStep_walks fromStr text _).mem_blocks _ _ block h with h | ⟨hocc, hlt, hok⟩
    · rcases (invokeStep_walks fromStr text _).mem_blocks _ _ block h with h | ⟨hocc, hlt, hok⟩
      · rcases (functionStep_walks fromStr text _).mem_blocks _ _ block h with h | ⟨hocc, hlt, hok⟩
        · rcases (fencedStep_walks fromStr text).mem_blocks _ _ block h with h | ⟨hocc, hlt, hok⟩
          · cases h
          · exact ⟨hlt, .fenced hocc hok⟩
        · exact ⟨hlt, .tags (htag (by decide) hocc) hok⟩
      · exact ⟨hlt, .tags (htag (by decide) hocc) hok⟩
    · exact ⟨hlt, .tags (htag (by decide) hocc) hok⟩
  · exact ⟨h.start_lt_stop, .bare h⟩

theorem mem_of_mem_mergedBlocks {block : ParsedBlock} (h : block ∈ mergedBlocks fromStr text) :
    block ∈ collectBlocks fromStr text :=
  (mem_sortByKey ParsedBlock.start).mp ((keepDisjoint_sublist _).subset h)

end Collectors

end Chelix.Agents
