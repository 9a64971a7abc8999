import Chelix.Agents.FencedCall

/-!
# Calls in quoted code

Tags are looked for outside of the code ranges of a text, and so is the key of a bare object.  A
fence is looked for everywhere, and the object before a key may begin in code.
-/

namespace Chelix.Agents

open Chelix.Library List

/-! ## Calls of a text -/

/-- The fences of calls from a position on, one after the other: each ends with the next fence. -/
inductive Fence (text : List Char) : ℕ → ℕ → ℕ → Prop
  | first {p k endRel : ℕ} (hstart : findFrom fenceMarker text p = some k)
      (hend : find fence (text.drop (k + fenceMarker.length)) = some endRel) :
      Fence text p k (k + fenceMarker.length + endRel + 3)
  | next {p k endRel k' e' : ℕ} (hstart : findFrom fenceMarker text p = some k)
      (hend : find fence (text.drop (k + fenceMarker.length)) = some endRel)
      (h : Fence text (k + fenceMarker.length + endRel + 3) k' e') : Fence text p k' e'

def fenceContent (text : List Char) (k e : ℕ) : List Char :=
  trimText ((text.drop (k + fenceMarker.length)).take (e - 3 - (k + fenceMarker.length)))

/-- The blocks that are found when a text is read step by step from a position on. -/
inductive Reading (step : BlockScan → Option BlockScan) : ℕ → ParsedBlock → Prop
  | here {p : ℕ} {t : BlockScan} {block : ParsedBlock} (hstep : step ⟨p, []⟩ = some t)
      (hblock : block ∈ t.blocks) : Reading step p block
  | further {p : ℕ} {t : BlockScan} {block : ParsedBlock} (hstep : step ⟨p, []⟩ = some t)
      (h : Reading step t.searchFrom block) : Reading step p block

section Calls

variable (fromStr : FromStr) (text : List Char)

/-- A position in a code range that does not begin there with the fence of a call. -/
def Quoted (k : ℕ) : Prop :=
  ∃ range ∈ markdownCodeRanges text, range.1 ≤ k ∧ k < range.2 ∧
    ¬(range.1 = k ∧ OccursAt fenceMarker text k)

/-- A fence whose content reads as a call. -/
def FenceCall (k e : ℕ) : Prop :=
  Fence text 0 k e ∧ (tryParseToolJson fromStr (fenceContent text k e)).isSome = true

/-- The blocks of the tags of a text, which are read outside of its code ranges. -/
def TagBlock (block : ParsedBlock) : Prop :=
  Reading (functionStep fromStr text (markdownCodeRanges text)) 0 block ∨
    Reading (invokeStep fromStr text (markdownCodeRanges text)) 0 block ∨
    Reading (zhipuStep fromStr text (markdownCodeRanges text)) 0 block

def TagCall (k e : ℕ) : Prop :=
  ∃ block, TagBlock fromStr text block ∧ block.start = k ∧ block.stop = e

/-- An object that reads as a call, from the last brace before a key that is outside of code. -/
def ObjectCall (k e : ℕ) : Prop :=
  e = bareObjectEnd text k ∧
    (tryParseToolJson fromStr ((text.drop k).take (e - k))).isSome = true ∧
    ∃ absHit, OccursAt toolKey text absHit ∧
      isInsideRanges absHit (markdownCodeRanges text) = false ∧
      rfind ['{'] (text.take absHit) = some k

/-- An object that reads as a call and begins in no fence or tag that does. -/
def FreeObject (k e : ℕ) : Prop :=
  ObjectCall fromStr text k e ∧ ∀ k' e', FenceCall fromStr text k' e' ∨ TagCall fromStr text k' e' →
    k' ≤ k → e' ≤ k

/-- The calls of a text: the fences and the tags, and of the objects those that begin in none of
these and in no object before. -/
def TextCall (k e : ℕ) : Prop :=
  FenceCall fromStr text k e ∨ TagCall fromStr text k e ∨ Kept (FreeObject fromStr text) k e

/-- A call of a text that begins in no other one that stands. -/
def Stands : ℕ → ℕ → Prop := Kept (TextCall fromStr text)

/-- The calls that are returned are those of blocks that do not begin in code. -/
structure CallsOutsideCode : Prop where
  calls : (parseToolCallsFromText fromStr text).1 =
    (mergedBlocks fromStr text).map ParsedBlock.toolCall
  outside : ∀ block ∈ mergedBlocks fromStr text, ¬Quoted text block.start

end Calls

/-! ## The walks -/

/-- A step reads the text from the next marker on, whatever was found before. -/
def ReadsAt (text marker : List Char) (step : BlockScan → Option BlockScan) : Prop :=
  ∀ s, step s = (findFrom marker text s.searchFrom).bind fun i =>
    (step ⟨i, []⟩).map fun t => ⟨t.searchFrom, s.blocks ++ t.blocks⟩

section Walks

variable (fromStr : FromStr) (text : List Char)

theorem fencedStep_readsAt : ReadsAt text fenceMarker (fencedStep fromStr text) := by
  intro s
  cases hfind : findFrom fenceMarker text s.searchFrom with
  | none => simp only [fencedStep, hfind, Option.bind_none]
  | some i =>
    simp only [fencedStep, hfind, findFrom_self (by decide) hfind, Option.bind_some]
    repeat' split
    all_goals simp

variable (ranges : List (ℕ × ℕ))

theorem functionStep_readsAt :
    ReadsAt text functionMarker (functionStep fromStr text ranges) := by
  intro s
  cases hfind : findFrom functionMarker text s.searchFrom with
  | none => simp only [functionStep, hfind, Option.bind_none]
  | some i =>
    simp only [functionStep, hfind, findFrom_self (by decide) hfind, Option.bind_some]
    repeat' split
    all_goals simp

theorem invokeStep_readsAt :
    ReadsAt text invokeMarker (invokeStep fromStr text ranges) := by
  intro s
  cases hfind : findFrom invokeMarker text s.searchFrom with
  | none => simp only [invokeStep, hfind, Option.bind_none]
  | some i =>
    simp only [invokeStep, hfind, findFrom_self (by decide) hfind, Option.bind_some]
    repeat' split
    all_goals simp

theorem zhipuStep_readsAt :
    ReadsAt text zhipuOpen (zhipuStep fromStr text ranges) := by
  intro s
  cases hfind : findFrom zhipuOpen text s.searchFrom with
  | none => simp only [zhipuStep, hfind, Option.bind_none]
  | some i =>
    simp only [zhipuStep, hfind, findFrom_self (by decide) hfind, Option.bind_some]
    repeat' split
    all_goals simp

variable {fromStr text} {marker : List Char} {ok : ParsedBlock → Prop}
  {step : BlockScan → Option BlockScan} {block : ParsedBlock}

theorem ReadsAt.step_iff (h : ReadsAt text marker step) (s u : BlockScan) :
    step s = some u ↔ ∃ t, step ⟨s.searchFrom, []⟩ = some t ∧
      u = ⟨t.searchFrom, s.blocks ++ t.blocks⟩ := by
  have hfresh : step ⟨s.searchFrom, []⟩ = (findFrom marker text s.searchFrom).bind fun i =>
      step ⟨i, []⟩ := by
    rw [h]
    simp
  rw [h s, hfresh]
  cases findFrom marker text s.searchFrom <;> simp [eq_comm]

/-- **A collector finds what reading the text step by step comes upon.** -/
theorem mem_loop_iff (hreads : ReadsAt text marker step) (hwalks : Walks text marker ok step)
    (hmarker : marker ≠ []) {n : ℕ} {s : BlockScan} (hn : text.length - s.searchFrom ≤ n) :
    block ∈ (loop step n s).blocks ↔ block ∈ s.blocks ∨ Reading step s.searchFrom block := by
  induction n generalizing s with
  | zero =>
    have hnone : step ⟨s.searchFrom, []⟩ = none := by
      by_contra hne
      obtain ⟨t, ht⟩ := Option.ne_none_iff_exists'.mp hne
      obtain ⟨i, hle, hocc, -, -⟩ := hwalks _ t ht
      have hlen := hocc.length_le hmarker
      have hpos := length_pos_iff.mpr hmarker
      dsimp only at hle
      omega
    refine ⟨.inl, fun h => h.resolve_right fun hreading => ?_⟩
    cases hreading with
    | here hstep _ | further hstep _ =>
      rw [hnone] at hstep
      cases hstep
  | succ n ih =>
    cases hfresh : step ⟨s.searchFrom, []⟩ with
    | none =>
      have hnone : step s = none := by
        by_contra hne
        obtain ⟨u, hu⟩ := Option.ne_none_iff_exists'.mp hne
        obtain ⟨t, ht, -⟩ := (hreads.step_iff s u).mp hu
        rw [hfresh] at ht
        cases ht
      rw [loop_of_none hnone]
      refine ⟨.inl, fun h => h.resolve_right fun hreading => ?_⟩
      cases hreading with
      | here hstep _ | further hstep _ =>
        rw [hfresh] at hstep
        cases hstep
    | some t =>
      obtain ⟨i, hle, -, hlt, -⟩ := hwalks _ t hfresh
      dsimp only at hle
      rw [loop_of_some ((hreads.step_iff s _).mpr ⟨t, hfresh, rfl⟩), ih (by dsimp only; omega),
        mem_append, or_assoc]
      refine or_congr_right ⟨?_, fun hreading => ?_⟩
      · rintro (hblock | hreading)
        · exact .here hfresh hblock
        · exact .further hfresh hreading
      · cases hreading with
        | here hstep hblock =>
          rw [hfresh] at hstep
          exact .inl ((Option.some.inj hstep).symm ▸ hblock)
        | further hstep hreading =>
          rw [hfresh] at hstep
          exact .inr ((Option.some.inj hstep).symm ▸ hreading)

theorem Reading.spec (hwalks : Walks text marker ok step) {p : ℕ} (h : Reading step p block) :
    p ≤ block.start ∧ OccursAt marker text block.start ∧ block.start < block.stop ∧ ok block := by
  induction h with
  | here hstep hblock =>
    obtain ⟨i, hle, hocc, hlt, hnone | ⟨new, hnew, hstart, hstop, hok⟩⟩ := hwalks _ _ hstep
    · rw [hnone] at hblock
      cases hblock
    · rw [hnew] at hblock
      obtain rfl := mem_singleton.mp hblock
      exact ⟨hstart ▸ hle, hstart ▸ hocc, by omega, hok⟩
  | further hstep _ ih =>
    obtain ⟨i, hle, -, hlt, -⟩ := hwalks _ _ hstep
    dsimp only at hle
    exact ⟨by omega, ih.2⟩

theorem Reading.unique (hwalks : Walks text marker ok step) {p : ℕ} {other : ParsedBlock}
    (h : Reading step p block) (h' : Reading step p other) (hstart : block.start = other.start) :
    block = other := by
  induction h with
  | here hstep hblock =>
    obtain ⟨i, -, -, hlt, hnone | ⟨new, hnew, hi, -, -⟩⟩ := hwalks _ _ hstep
    · rw [hnone] at hblock
      cases hblock
    · rw [hnew] at hblock
      obtain rfl := mem_singleton.mp hblock
      cases h' with
      | here hstep' hblock' =>
        obtain rfl := Option.some.inj (hstep.symm.trans hstep')
        rw [hnew] at hblock'
        exact (mem_singleton.mp hblock').symm
      | further hstep' hreading =>
        obtain rfl := Option.some.inj (hstep.symm.trans hstep')
        have hle := (hreading.spec hwalks).1
        omega
  | further hstep hreading ih =>
    cases h' with
    | here hstep' hblock' =>
      obtain rfl := Option.some.inj (hstep.symm.trans hstep')
      obtain ⟨i, -, -, hlt, hnone | ⟨new, hnew, hi, -, -⟩⟩ := hwalks _ _ hstep
      · rw [hnone] at hblock'
        cases hblock'
      · rw [hnew] at hblock'
        obtain rfl := mem_singleton.mp hblock'
        have hle := (hreading.spec hwalks).1
        omega
    | further hstep' hreading' =>
      obtain rfl := Option.some.inj (hstep.symm.trans hstep')
      exact ih hreading' hstart

end Walks

/-! ## Fences -/

section Fences

variable {fromStr : FromStr} {text : List Char} {block : ParsedBlock} {p k e : ℕ}

theorem fencedStep_eq_some_iff {t : BlockScan} :
    fencedStep fromStr text ⟨p, []⟩ = some t ↔ ∃ k endRel,
      findFrom fenceMarker text p = some k ∧
      find fence (text.drop (k + fenceMarker.length)) = some endRel ∧
      t.searchFrom = k + fenceMarker.length + endRel + 3 ∧
      t.blocks = (tryParseToolJson fromStr (fenceContent text k t.searchFrom)).toList.map
        fun toolCall => ⟨toolCall, k, t.searchFrom⟩ := by
  have hcontent (k endRel : ℕ) : fenceContent text k (k + fenceMarker.length + endRel + 3) =
      trimText ((text.drop (k + fenceMarker.length)).take endRel) := by
    unfold fenceContent
    rw [show k + fenceMarker.length + endRel + 3 - 3 - (k + fenceMarker.length) = endRel by omega]
  obtain ⟨searchFrom, blocks⟩ := t
  dsimp only
  constructor
  · intro hstep
    unfold fencedStep at hstep
    split at hstep
    · cases hstep
    rename_i k hfind
    dsimp only at hstep
    split at hstep
    · cases hstep
    rename_i endRel hend
    refine ⟨k, endRel, hfind, hend, ?_⟩
    split at hstep
    · rename_i parsed hparse
      obtain ⟨rfl, rfl⟩ := BlockScan.mk.inj (Option.some.inj hstep)
      rw [hcontent, hparse]
      exact ⟨rfl, rfl⟩
    · rename_i hparse
      obtain ⟨rfl, rfl⟩ := BlockScan.mk.inj (Option.some.inj hstep)
      rw [hcontent, hparse]
      exact ⟨rfl, rfl⟩
  · rintro ⟨k, endRel, hfind, hend, rfl, rfl⟩
    rw [hcontent]
    simp only [fencedStep, hfind, hend]
    cases tryParseToolJson fromStr (trimText
      ((text.drop (k + fenceMarker.length)).take endRel)) <;> rfl

theorem fencedStep_of_find {k endRel : ℕ} (hfind : findFrom fenceMarker text p = some k)
    (hend : find fence (text.drop (k + fenceMarker.length)) = some endRel) :
    fencedStep fromStr text ⟨p, []⟩ = some ⟨k + fenceMarker.length + endRel + 3,
      (tryParseToolJson fromStr (fenceContent text k (k + fenceMarker.length + endRel + 3))).toList.map
        fun toolCall => ⟨toolCall, k, k + fenceMarker.length + endRel + 3⟩⟩ :=
  fencedStep_eq_some_iff.mpr ⟨k, endRel, hfind, hend, rfl, rfl⟩

theorem reading_fencedStep : Reading (fencedStep fromStr text) p block ↔
    Fence text p block.start block.stop ∧ tryParseToolJson fromStr
      (fenceContent text block.start block.stop) = some block.toolCall := by
  constructor
  · intro h
    induction h with
    | here hstep hblock =>
      obtain ⟨k, endRel, hfind, hend, hstop, hblocks⟩ := fencedStep_eq_some_iff.mp hstep
      rw [hblocks] at hblock
      obtain ⟨toolCall, hcall, rfl⟩ := List.mem_map.mp hblock
      dsimp only
      rw [hstop] at hcall ⊢
      exact ⟨.first hfind hend, Option.mem_toList.mp hcall⟩
    | further hstep _ ih =>
      obtain ⟨k, endRel, hfind, hend, hstop, -⟩ := fencedStep_eq_some_iff.mp hstep
      rw [hstop] at ih
      exact ⟨.next hfind hend ih.1, ih.2⟩
  · rintro ⟨hfence, hcall⟩
    obtain ⟨toolCall, start, stop⟩ := block
    dsimp only at hfence hcall
    induction hfence with
    | first hfind hend =>
      exact .here (fencedStep_of_find hfind hend)
        (List.mem_map.mpr ⟨toolCall, Option.mem_toList.mpr hcall, rfl⟩)
    | next hfind hend _ ih => exact .further (fencedStep_of_find hfind hend) (ih hcall)

theorem fenceCall_iff : FenceCall fromStr text k e ↔
    ∃ block, Reading (fencedStep fromStr text) 0 block ∧ block.start = k ∧ block.stop = e := by
  constructor
  · rintro ⟨hfence, hcall⟩
    obtain ⟨toolCall, htool⟩ := Option.isSome_iff_exists.mp hcall
    exact ⟨⟨toolCall, k, e⟩, reading_fencedStep.mpr ⟨hfence, htool⟩, rfl, rfl⟩
  · rintro ⟨block, hreading, rfl, rfl⟩
    obtain ⟨hfence, hcall⟩ := reading_fencedStep.mp hreading
    exact ⟨hfence, hcall ▸ rfl⟩

end Fences

/-! ## Bare objects -/

theorem codeRangeEnd_spec {text : List Char} {start : ℕ} (h : OccursAt ['\x60'] text start) :
    text.length ≤ codeRangeEnd text start ∨
      text[codeRangeEnd text start - 1]? = some '\x60' := by
  have hhead : (text.drop start).head? = some '\x60' := by
    rw [List.head?_drop]
    exact occursAt_singleton.mp h
  obtain ⟨rest, hrest⟩ := List.head?_eq_some_iff.mp hhead
  unfold codeRangeEnd
  simp only
  split
  · rename_i endRel hend
    have hne : (text.drop start).takeWhile (· = '\x60') ≠ [] := by
      rw [hrest, takeWhile_cons_of_pos (by decide)]
      exact cons_ne_nil _ _
    have hpos := length_pos_iff.mpr hne
    have hocc := occursAt_drop.mp ((find_eq_some_iff hne).mp hend).1
    have hget := hocc.getElem? (Nat.sub_lt hpos one_pos)
    have hlast := List.getElem?_eq_getElem (Nat.sub_lt hpos one_pos)
    have hchar : ((text.drop start).takeWhile (· = '\x60'))[
        ((text.drop start).takeWhile (· = '\x60')).length - 1] = '\x60' := by
      have hall := List.mem_takeWhile_imp (getElem_mem (Nat.sub_lt hpos one_pos))
      exact of_decide_eq_true hall
    rw [hlast, hchar] at hget
    refine .inr ?_
    rw [← hget]
    congr 1
    omega
  · exact .inl (le_refl _)

theorem codeRange_end (text : List Char) : ∀ range ∈ markdownCodeRanges text,
    text.length ≤ range.2 ∨ text[range.2 - 1]? = some '\x60' := by
  unfold markdownCodeRanges
  refine loop_invariant (P := fun s : RangeScan => ∀ range ∈ s.ranges,
    text.length ≤ range.2 ∨ text[range.2 - 1]? = some '\x60') (fun s t hs hstep range hrange => ?_)
    _ nofun
  unfold codeRangeStep at hstep
  split at hstep
  · cases hstep
  rename_i start hfind
  obtain rfl := Option.some.inj hstep
  rcases mem_append.mp hrange with hrange | hrange
  · exact hs range hrange
  · obtain rfl := mem_singleton.mp hrange
    exact codeRangeEnd_spec (findFrom_spec (cons_ne_nil _ _) hfind).2.1

section Objects

variable {fromStr : FromStr} {text : List Char}

theorem key_overlap {absHit j k : ℕ} (hocc : OccursAt toolKey text absHit)
    (hocc' : OccursAt toolKey text j) (hlt : absHit < j) (hlt' : j < absHit + toolKey.length)
    (houtside : isInsideRanges j (markdownCodeRanges text) = false)
    (hobject : rfind ['{'] (text.take j) = some k) :
    isInsideRanges absHit (markdownCodeRanges text) = false ∧
      rfind ['{'] (text.take absHit) = some k := by
  have hkey {i : ℕ} {c : Char} (hle : absHit ≤ i) (hi : i < j) (hget : text[i]? = some c) :
      c ∈ toolKey := by
    have hchar := hocc.getElem? (show i - absHit < toolKey.length by omega)
    rw [Nat.add_sub_cancel' hle, hget] at hchar
    exact mem_of_getElem? hchar.symm
  have hlen := hocc'.length_le (by decide)
  have hsix : toolKey.length = 6 := rfl
  constructor
  · rw [Bool.eq_false_iff]
    intro hinside
    obtain ⟨range, hrange, hin⟩ := List.any_eq_true.mp hinside
    rw [Bool.and_eq_true, decide_eq_true_eq, decide_eq_true_eq] at hin
    have hout : range.2 ≤ j := by
      by_contra hne
      have hin' := List.any_eq_false.mp houtside range hrange
      rw [Bool.and_eq_true, decide_eq_true_eq, decide_eq_true_eq] at hin'
      omega
    rcases codeRange_end text range hrange with hend | hend
    · omega
    · exact absurd (hkey (by omega) (by omega) hend) (by decide)
  · obtain ⟨hbrace, hgreatest⟩ := rfind_singleton_iff.mp hobject
    have htake {n i : ℕ} : OccursAt ['{'] (text.take n) i ↔ i < n ∧ text[i]? = some '{' := by
      rw [occursAt_singleton, List.getElem?_take]
      split <;> simp_all
    obtain ⟨hkj, hget⟩ := htake.mp hbrace
    refine rfind_singleton_iff.mpr ⟨htake.mpr ⟨?_, hget⟩, fun i hi => ?_⟩
    · by_contra hle
      exact absurd (hkey (by omega) hkj hget) (by decide)
    · obtain ⟨hi, hget⟩ := htake.mp hi
      exact hgreatest i (htake.mpr ⟨by omega, hget⟩)

/-- How far the objects are known: those before a key below `bound` are found or begin in a block,
and those that were found do not overlap. -/
structure ObjectsKnown (fromStr : FromStr) (text : List Char) (earlier : List ParsedBlock)
    (s : BlockScan) (objects : List ParsedBlock) (bound : ℕ) : Prop where
  blocks : s.blocks = earlier ++ objects
  searched : s.searchFrom ≤ bound
  found : ∀ b ∈ objects, BareBlock fromStr text (markdownCodeRanges text) b
  free : ∀ b ∈ objects, ∀ a ∈ earlier, a.start ≤ b.start → a.stop ≤ b.start
  apart : objects.Pairwise fun a b => a.stop ≤ b.start
  below : ∀ b ∈ objects, ∃ absHit < bound, rfind ['{'] (text.take absHit) = some b.start
  known : ∀ absHit < bound, OccursAt toolKey text absHit →
    isInsideRanges absHit (markdownCodeRanges text) = false →
    ∀ k, rfind ['{'] (text.take absHit) = some k →
      (tryParseToolJson fromStr ((text.drop k).take (bareObjectEnd text k - k))).isSome = true →
      ∃ b ∈ s.blocks, b.start ≤ k ∧ k < b.stop

namespace ObjectsKnown

variable {earlier objects : List ParsedBlock} {s t : BlockScan} {bound : ℕ}

theorem known_next (h : ObjectsKnown fromStr text earlier s objects bound) {absHit : ℕ}
    (hfind : findFrom toolKey text s.searchFrom = some absHit) {blocks : List ParsedBlock}
    (hsub : ∀ b ∈ s.blocks, b ∈ blocks)
    (hnext : isInsideRanges absHit (markdownCodeRanges text) = false →
      ∀ k, rfind ['{'] (text.take absHit) = some k →
        (tryParseToolJson fromStr ((text.drop k).take (bareObjectEnd text k - k))).isSome = true →
        ∃ b ∈ blocks, b.start ≤ k ∧ k < b.stop) {j k : ℕ}
    (hj : j < absHit + toolKey.length) (hocc : OccursAt toolKey text j)
    (houtside : isInsideRanges j (markdownCodeRanges text) = false)
    (hobject : rfind ['{'] (text.take j) = some k)
    (hcall : (tryParseToolJson fromStr
      ((text.drop k).take (bareObjectEnd text k - k))).isSome = true) :
    ∃ b ∈ blocks, b.start ≤ k ∧ k < b.stop := by
  obtain ⟨-, hocc', hfirst⟩ := findFrom_spec (by decide) hfind
  rcases Nat.lt_or_ge j bound with hlt | hge
  · obtain ⟨b, hb, hin⟩ := h.known j hlt hocc houtside k hobject hcall
    exact ⟨b, hsub b hb, hin⟩
  · have hle := hfirst j (Nat.le_trans h.searched hge) hocc
    rcases Nat.eq_or_lt_of_le hle with rfl | hlt
    · exact hnext houtside k hobject hcall
    · obtain ⟨houtside', hobject'⟩ := key_overlap hocc' hocc hlt hj houtside hobject
      exact hnext houtside' k hobject' hcall

/-- **A step keeps what is known.** -/
theorem step (h : ObjectsKnown fromStr text earlier s objects bound)
    (hstep : bareJsonStep fromStr text (markdownCodeRanges text) s = some t) :
    ∃ objects' bound', ObjectsKnown fromStr text earlier t objects' bound' := by
  obtain ⟨absHit, hfind, ⟨rfl, hskipped⟩ | ⟨block, hat, hfree, rfl⟩⟩ :=
    bareJsonStep_spec fromStr text hstep
  · refine ⟨objects, max bound (absHit + toolKey.length), h.blocks, le_max_right _ _, h.found, h.free,
      h.apart, fun b hb => ?_, fun j hj hocc houtside k hobject hcall => ?_⟩
    · obtain ⟨i, hi, hbrace⟩ := h.below b hb
      exact ⟨i, lt_max_of_lt_left hi, hbrace⟩
    · rcases lt_max_iff.mp hj with hj | hj
      · exact h.known j hj hocc houtside k hobject hcall
      · exact h.known_next hfind (fun b hb => hb) hskipped hj hocc houtside hobject hcall
  · have hblock : BareBlock fromStr text (markdownCodeRanges text) block := ⟨absHit, hat⟩
    obtain ⟨hocc, houtside, hobject, hstop, hcall⟩ := hat
    have hproper := hblock.start_lt_stop
    have hfreed : ∀ b ∈ s.blocks, b.start ≤ block.start → b.stop ≤ block.start := by
      intro b hb hle
      by_contra hlt
      exact hfree b hb ⟨hle, Nat.lt_of_not_le hlt⟩
    have hbound : bound ≤ absHit := by
      by_contra hlt
      obtain ⟨b, hb, hin⟩ := h.known absHit (by omega) hocc houtside _ hobject
        (by rw [← hstop, hcall]; rfl)
      exact hfree b hb hin
    have hearlier : ∀ b ∈ objects, b.start ≤ block.start := by
      intro b hb
      obtain ⟨i, hi, hbrace⟩ := h.below b hb
      have hin : OccursAt ['{'] (text.take absHit) b.start := by
        have hb' := (rfind_singleton_iff.mp hbrace).1
        rw [occursAt_singleton, List.getElem?_take] at hb' ⊢
        split at hb'
        · rw [if_pos (by omega)]
          exact hb'
        · cases hb'
      exact (rfind_singleton_iff.mp hobject).2 _ hin
    refine ⟨objects ++ [block], max (max bound (absHit + toolKey.length)) block.stop, ?_,
      le_max_right _ _, ?_, ?_, ?_, ?_, fun j hj hocc' houtside' k hobject' hcall' => ?_⟩
    · rw [h.blocks, append_assoc]
    · intro b hb
      rcases mem_append.mp hb with hb | hb
      · exact h.found b hb
      · rwa [mem_singleton.mp hb]
    · intro b hb a ha
      rcases mem_append.mp hb with hb | hb
      · exact h.free b hb a ha
      · rw [mem_singleton.mp hb]
        exact hfreed a (h.blocks ▸ mem_append_left _ ha)
    · refine pairwise_append.mpr ⟨h.apart, pairwise_singleton _ _, fun a ha b hb => ?_⟩
      rw [mem_singleton.mp hb]
      exact hfreed a (h.blocks ▸ mem_append_right _ ha) (hearlier a ha)
    · intro b hb
      rcases mem_append.mp hb with hb | hb
      · obtain ⟨i, hi, hbrace⟩ := h.below b hb
        exact ⟨i, lt_max_of_lt_left (lt_max_of_lt_left hi), hbrace⟩
      · rw [mem_singleton.mp hb]
        exact ⟨absHit, lt_max_of_lt_left (lt_max_of_lt_right (by
          rw [show toolKey.length = 6 from rfl]
          omega)), hobject⟩
    · have hnew : block ∈ s.blocks ++ [block] := mem_append_right _ (mem_singleton_self _)
      rcases Nat.lt_or_ge j (absHit + toolKey.length) with hlt | hge
      · refine h.known_next hfind (fun b hb => mem_append_left _ hb) (fun _ k hobject' _ => ?_) hlt
          hocc' houtside' hobject' hcall'
        obtain rfl := Option.some.inj (hobject.symm.trans hobject')
        exact ⟨block, hnew, le_refl _, hproper⟩
      · -- a key behind this one that the search goes past is in the object
        have hlt : j < block.stop := by
          rcases lt_max_iff.mp hj with hj | hj
          · rcases lt_max_iff.mp hj with hj | hj <;> omega
          · exact hj
        have hbrace := (rfind_singleton_iff.mp hobject).1
        have hbrace' := (rfind_singleton_iff.mp hobject').1
        rw [occursAt_singleton, List.getElem?_take] at hbrace hbrace'
        split at hbrace
        · split at hbrace'
          · refine ⟨block, hnew, (rfind_singleton_iff.mp hobject').2 _ ?_, by omega⟩
            rw [occursAt_singleton, List.getElem?_take, if_pos (by omega)]
            exact hbrace
          · cases hbrace'
        · cases hbrace

/-- **What the collector of bare objects finds**, behind the blocks that were found before. -/
theorem of_loop (earlier : List ParsedBlock) :
    ∃ objects, collectBareJsonBlocks fromStr text earlier (markdownCodeRanges text) =
        earlier ++ objects ∧ (∀ b ∈ objects, BareBlock fromStr text (markdownCodeRanges text) b) ∧
      ∀ k e, Kept (fun k e => ObjectCall fromStr text k e ∧
        ∀ a ∈ earlier, a.start ≤ k → a.stop ≤ k) k e ↔ ∃ b ∈ objects, b.start = k ∧ b.stop = e := by
  obtain ⟨objects, bound, h⟩ : ∃ objects bound, ObjectsKnown fromStr text earlier
      (loop (bareJsonStep fromStr text (markdownCodeRanges text))
        ((text.length + 1) * (text.length + 1)) { searchFrom := 0, blocks := earlier })
      objects bound := by
    refine loop_invariant (P := fun s => ∃ objects bound,
      ObjectsKnown fromStr text earlier s objects bound) (fun s t hs hstep => ?_) _ ?_
    · obtain ⟨objects, bound, h⟩ := hs
      exact h.step hstep
    · exact ⟨[], 0, (append_nil _).symm, le_refl _, nofun, nofun, .nil, nofun, nofun⟩
  have hover := @bareJson_done fromStr text (markdownCodeRanges text) earlier
  have hnone : findFrom toolKey text (loop (bareJsonStep fromStr text (markdownCodeRanges text))
      ((text.length + 1) * (text.length + 1)) { searchFrom := 0, blocks := earlier }).searchFrom =
        none := by
    unfold bareJsonStep at hover
    split at hover
    · assumption
    · simp only at hover
      repeat' split at hover
      all_goals cases hover
  refine ⟨objects, h.blocks, h.found, kept_iff ?_ ?_ ?_⟩
  · rintro k e ⟨b, hb, rfl, rfl⟩
    obtain ⟨absHit, hocc, houtside, hobject, hstop, hcall⟩ := h.found b hb
    exact ⟨⟨hstop, hcall ▸ rfl, absHit, hocc, houtside, hobject⟩, h.free b hb⟩
  · rintro k e k' e' ⟨b, hb, rfl, rfl⟩ ⟨b', hb', rfl, rfl⟩ hlt
    have hsymm : Std.Symm fun a b : ParsedBlock => a.stop ≤ b.start ∨ b.stop ≤ a.start :=
      ⟨fun _ _ => Or.symm⟩
    have hapart : objects.Pairwise fun a b => a.stop ≤ b.start ∨ b.stop ≤ a.start :=
      h.apart.imp Or.inl
    have hproper := (h.found b hb).start_lt_stop
    have hne : b' ≠ b := by
      rintro rfl
      exact lt_irrefl _ hlt
    rcases hapart.forall hb' hb hne with hle | hle
    · exact hle
    · omega
  · rintro k e ⟨⟨rfl, hcall, absHit, hocc, houtside, hobject⟩, hfree⟩
    have hlt : absHit < bound := by
      by_contra hle
      have hsearched := h.searched
      exact not_occursAt_of_findFrom (by decide) hnone (by omega) hocc
    obtain ⟨b, hb, hle, hlt⟩ := h.known absHit hlt hocc houtside k hobject hcall
    rw [h.blocks] at hb
    rcases mem_append.mp hb with hb | hb
    · have hstop := hfree b hb hle
      omega
    · rcases Nat.eq_or_lt_of_le hle with rfl | hbefore
      · obtain ⟨-, -, -, -, hstop, -⟩ := h.found b hb
        exact .inl ⟨b, hb, rfl, hstop⟩
      · exact .inr ⟨b.start, b.stop, ⟨b, hb, rfl, rfl⟩, hbefore, hlt⟩

end ObjectsKnown

end Objects

/-! ## The calls that are returned -/

/-- What a call is written as. -/
inductive CallKind where
  | fence
  | function
  | invoke
  | zhipu
  | object
  deriving DecidableEq

namespace CallKind

def marker : CallKind → List Char
  | fence => fenceMarker
  | function => functionMarker
  | invoke => invokeMarker
  | zhipu => zhipuOpen
  | object => ['{']

theorem eq_of_occursAt {kind kind' : CallKind} {text : List Char} {k : ℕ}
    (h : OccursAt kind.marker text k) (h' : OccursAt kind'.marker text k) : kind = kind' := by
  have hcomparable := prefix_or_prefix_of_prefix h h'
  revert hcomparable
  cases kind <;> cases kind' <;> decide

def Block (fromStr : FromStr) (text : List Char) : CallKind → ParsedBlock → Prop
  | fence => Reading (fencedStep fromStr text) 0
  | function => Reading (functionStep fromStr text (markdownCodeRanges text)) 0
  | invoke => Reading (invokeStep fromStr text (markdownCodeRanges text)) 0
  | zhipu => Reading (zhipuStep fromStr text (markdownCodeRanges text)) 0
  | object => BareBlock fromStr text (markdownCodeRanges text)

variable {fromStr : FromStr} {text : List Char} {kind kind' : CallKind} {a b : ParsedBlock}

theorem Block.occursAt (h : kind.Block fromStr text b) : OccursAt kind.marker text b.start := by
  cases kind with
  | fence => exact (Reading.spec (fencedStep_walks fromStr text) h).2.1
  | function => exact (Reading.spec (functionStep_walks fromStr text _) h).2.1
  | invoke => exact (Reading.spec (invokeStep_walks fromStr text _) h).2.1
  | zhipu => exact (Reading.spec (zhipuStep_walks fromStr text _) h).2.1
  | object => exact BareBlock.occurs h

theorem Block.stop_unique (ha : kind.Block fromStr text a) (hb : kind'.Block fromStr text b)
    (hstart : a.start = b.start) : a.stop = b.stop := by
  obtain rfl := eq_of_occursAt ha.occursAt (hstart ▸ hb.occursAt)
  cases kind with
  | fence => rw [Reading.unique (fencedStep_walks fromStr text) ha hb hstart]
  | function => rw [Reading.unique (functionStep_walks fromStr text _) ha hb hstart]
  | invoke => rw [Reading.unique (invokeStep_walks fromStr text _) ha hb hstart]
  | zhipu => rw [Reading.unique (zhipuStep_walks fromStr text _) ha hb hstart]
  | object =>
    obtain ⟨-, -, -, -, hstop, -⟩ := ha
    obtain ⟨-, -, -, -, hstop', -⟩ := hb
    rw [hstop, hstop', hstart]

end CallKind

section Returned

variable {fromStr : FromStr} {text : List Char}

theorem mem_earlier {b : ParsedBlock} :
    b ∈ collectZhipuBlocks fromStr text (collectInvokeBlocks fromStr text
        (collectFunctionBlocks fromStr text (collectFencedBlocks fromStr text [])
          (markdownCodeRanges text)) (markdownCodeRanges text)) (markdownCodeRanges text) ↔
      Reading (fencedStep fromStr text) 0 b ∨ TagBlock fromStr text b := by
  unfold collectZhipuBlocks collectInvokeBlocks collectFunctionBlocks collectFencedBlocks TagBlock
  rw [mem_loop_iff (zhipuStep_readsAt fromStr text _) (zhipuStep_walks fromStr text _) (by decide)
      (Nat.sub_le _ _),
    mem_loop_iff (invokeStep_readsAt fromStr text _) (invokeStep_walks fromStr text _) (by decide)
      (Nat.sub_le _ _),
    mem_loop_iff (functionStep_readsAt fromStr text _) (functionStep_walks fromStr text _)
      (by decide) (Nat.sub_le _ _),
    mem_loop_iff (fencedStep_readsAt fromStr text) (fencedStep_walks fromStr text) (by decide)
      (Nat.sub_le _ _)]
  simp [or_assoc]

/-- **The blocks that are found are the calls of the text.** -/
theorem collectBlocks_spec :
    (∀ b ∈ collectBlocks fromStr text, ∃ kind : CallKind, kind.Block fromStr text b) ∧
    ∀ k e, TextCall fromStr text k e ↔
      ∃ b ∈ collectBlocks fromStr text, b.start = k ∧ b.stop = e := by
  obtain ⟨objects, hblocks, hfound, hkept⟩ := @ObjectsKnown.of_loop fromStr text
    (collectZhipuBlocks fromStr text (collectInvokeBlocks fromStr text
      (collectFunctionBlocks fromStr text (collectFencedBlocks fromStr text [])
        (markdownCodeRanges text)) (markdownCodeRanges text)) (markdownCodeRanges text))
  have hmem {b : ParsedBlock} : b ∈ collectBlocks fromStr text ↔
      (Reading (fencedStep fromStr text) 0 b ∨ TagBlock fromStr text b) ∨ b ∈ objects := by
    rw [← mem_earlier, ← mem_append, ← hblocks]
    rfl
  have hfree : (fun k e => ObjectCall fromStr text k e ∧ ∀ a ∈ collectZhipuBlocks fromStr text
      (collectInvokeBlocks fromStr text (collectFunctionBlocks fromStr text
        (collectFencedBlocks fromStr text []) (markdownCodeRanges text)) (markdownCodeRanges text))
          (markdownCodeRanges text), a.start ≤ k → a.stop ≤ k) = FreeObject fromStr text := by
    funext k e
    refine propext (and_congr_right fun _ => ⟨fun h k' e' hcall => ?_, fun h a ha => ?_⟩)
    · rcases hcall with hcall | ⟨b, hb, rfl, rfl⟩
      · obtain ⟨b, hb, rfl, rfl⟩ := fenceCall_iff.mp hcall
        exact h b (mem_earlier.mpr (.inl hb))
      · exact h b (mem_earlier.mpr (.inr hb))
    · rcases mem_earlier.mp ha with hreading | htag
      · exact h _ _ (.inl (fenceCall_iff.mpr ⟨a, hreading, rfl, rfl⟩))
      · exact h _ _ (.inr ⟨a, htag, rfl, rfl⟩)
  rw [hfree] at hkept
  constructor
  · intro b hb
    rcases hmem.mp hb with (hreading | hreading | hreading | hreading) | hobject
    · exact ⟨.fence, hreading⟩
    · exact ⟨.function, hreading⟩
    · exact ⟨.invoke, hreading⟩
    · exact ⟨.zhipu, hreading⟩
    · exact ⟨.object, hfound b hobject⟩
  · intro k e
    constructor
    · rintro (hcall | ⟨b, htag, hspan⟩ | hobject)
      · obtain ⟨b, hreading, hspan⟩ := fenceCall_iff.mp hcall
        exact ⟨b, hmem.mpr (.inl (.inl hreading)), hspan⟩
      · exact ⟨b, hmem.mpr (.inl (.inr htag)), hspan⟩
      · obtain ⟨b, hb, hspan⟩ := (hkept k e).mp hobject
        exact ⟨b, hmem.mpr (.inr hb), hspan⟩
    · rintro ⟨b, hb, hspan⟩
      rcases hmem.mp hb with (hreading | htag) | hobject
      · exact .inl (fenceCall_iff.mpr ⟨b, hreading, hspan⟩)
      · exact .inr (.inl ⟨b, htag, hspan⟩)
      · exact .inr (.inr ((hkept k e).mpr ⟨b, hobject, hspan⟩))

theorem mergedBlocks_disjoint {a b : ParsedBlock} (ha : a ∈ mergedBlocks fromStr text)
    (hb : b ∈ mergedBlocks fromStr text) (hne : a ≠ b) : a.stop ≤ b.start ∨ b.stop ≤ a.start := by
  have hpairwise : (mergedBlocks fromStr text).Pairwise fun a b => a.stop ≤ b.start :=
    pairwise_keepDisjoint fun c hc =>
      (mem_collectBlocks ((mem_sortByKey ParsedBlock.start).mp hc)).1.le
  have hsymm : Std.Symm fun a b : ParsedBlock => a.stop ≤ b.start ∨ b.stop ≤ a.start :=
    ⟨fun _ _ => Or.symm⟩
  have hdisjoint : (mergedBlocks fromStr text).Pairwise fun a b =>
      a.stop ≤ b.start ∨ b.stop ≤ a.start := hpairwise.imp Or.inl
  exact hdisjoint.forall ha hb hne

/-- **The calls that are returned are the calls of the text that stand.** -/
theorem stands_iff (k e : ℕ) : Stands fromStr text k e ↔
    ∃ b ∈ mergedBlocks fromStr text, b.start = k ∧ b.stop = e := by
  obtain ⟨hkinds, hcalls⟩ := @collectBlocks_spec fromStr text
  refine kept_iff (S := TextCall fromStr text)
    (R := fun k e => ∃ b ∈ mergedBlocks fromStr text, b.start = k ∧ b.stop = e) ?_ ?_ ?_ k e
  · rintro k e ⟨b, hb, hspan⟩
    exact (hcalls k e).mpr ⟨b, mem_of_mem_mergedBlocks hb, hspan⟩
  · rintro k e k' e' ⟨b, hb, rfl, rfl⟩ ⟨b', hb', rfl, rfl⟩ hlt
    have hproper := (mem_collectBlocks (mem_of_mem_mergedBlocks hb)).1
    have hne : b' ≠ b := by
      rintro rfl
      exact lt_irrefl _ hlt
    rcases mergedBlocks_disjoint hb' hb hne with hle | hle
    · exact hle
    · omega
  · intro k e hcall
    obtain ⟨b, hb, rfl, rfl⟩ := (hcalls k e).mp hcall
    have hsorted := pairwise_sortByKey ParsedBlock.start (collectBlocks fromStr text)
    have hor : b ∈ mergedBlocks fromStr text ∨ ∃ a ∈ mergedBlocks fromStr text,
        a.start ≤ b.start ∧ b.start < a.stop :=
      mem_keepDisjoint_or hsorted ((mem_sortByKey ParsedBlock.start).mpr hb)
    rcases hor with hkept | ⟨a, ha, hle, hlt⟩
    · exact .inl ⟨b, hkept, rfl, rfl⟩
    · rcases Nat.eq_or_lt_of_le hle with heq | hbefore
      · obtain ⟨kind, hkind⟩ := hkinds a (mem_of_mem_mergedBlocks ha)
        obtain ⟨kind', hkind'⟩ := hkinds b hb
        exact .inl ⟨a, ha, heq, hkind.stop_unique hkind' heq⟩
      · exact .inr ⟨a.start, a.stop, ⟨a, ha, rfl, rfl⟩, hbefore, hlt⟩

theorem parse_fst : (parseToolCallsFromText fromStr text).1 =
    (mergedBlocks fromStr text).map ParsedBlock.toolCall := by
  unfold parseToolCallsFromText
  split
  · rename_i hnone
    unfold mergedBlocks
    rw [hnone]
    rfl
  · rfl

theorem isInside_of_quoted {k : ℕ} (h : Quoted text k) :
    isInsideRanges k (markdownCodeRanges text) = true := by
  obtain ⟨range, hrange, hle, hlt, -⟩ := h
  refine List.any_eq_true.mpr ⟨range, hrange, ?_⟩
  rw [Bool.and_eq_true, decide_eq_true_eq, decide_eq_true_eq]
  exact ⟨hle, hlt⟩

theorem not_quoted_of_tagCall {k e : ℕ} (h : TagCall fromStr text k e) : ¬Quoted text k := by
  obtain ⟨b, hreading, rfl, rfl⟩ := h
  have houtside : Outside (markdownCodeRanges text) b := by
    rcases hreading with hreading | hreading | hreading
    · exact (hreading.spec (functionStep_walks fromStr text _)).2.2.2
    · exact (hreading.spec (invokeStep_walks fromStr text _)).2.2.2
    · exact (hreading.spec (zhipuStep_walks fromStr text _)).2.2.2
  intro hquoted
  exact Bool.false_ne_true (houtside.symm.trans (isInside_of_quoted hquoted))

end Returned

/-- **Quoted code is not executed** if and only if each fence in code whose content reads as a call,
and each object that begins in code, reads as a call and begins in no other fence, tag or object,
begins in a call of the text that begins before it and stands. -/
theorem not_quoted_iff (fromStr : FromStr) (text : List Char) :
    CallsOutsideCode fromStr text ↔
      ∀ k e, Quoted text k → FenceCall fromStr text k e ∨ Kept (FreeObject fromStr text) k e →
        ∃ k' e', Stands fromStr text k' e' ∧ k' < k ∧ k < e' := by
  constructor
  · rintro ⟨-, hnone⟩ k e hquoted hcall
    have hspan : TextCall fromStr text k e := by
      rcases hcall with hcall | hcall
      · exact .inl hcall
      · exact .inr (.inr hcall)
    by_contra hfree
    have hstands : Stands fromStr text k e := by
      unfold Stands
      rw [Kept]
      refine ⟨hspan, fun k' e' hlt hkept => ?_⟩
      by_contra hlt'
      exact hfree ⟨k', e', hkept, hlt, Nat.lt_of_not_le hlt'⟩
    obtain ⟨b, hb, rfl, rfl⟩ := (stands_iff k e).mp hstands
    exact hnone b hb hquoted
  · intro h
    refine ⟨parse_fst, fun b hb hquoted => ?_⟩
    have hstands : Stands fromStr text b.start b.stop := (stands_iff _ _).mpr ⟨b, hb, rfl, rfl⟩
    unfold Stands at hstands
    rw [Kept] at hstands
    obtain ⟨hcall, hnone⟩ := hstands
    have hcode : FenceCall fromStr text b.start b.stop ∨
        Kept (FreeObject fromStr text) b.start b.stop := by
      rcases hcall with hcall | hcall | hcall
      · exact .inl hcall
      · exact absurd hquoted (not_quoted_of_tagCall hcall)
      · exact .inr hcall
    obtain ⟨k', e', hkept, hlt, hlt'⟩ := h _ _ hquoted hcode
    have hle := hnone k' e' hlt hkept
    omega

/-! ## A longer fence -/

/-- A call that is quoted in a longer fence. -/
def longerFence : List Char :=
  "````\n```tool_call\n\x7b\"tool\":\"ls\",\"arguments\":\x7b\x7d\x7d\n```\n````".toList

def readsList : FromStr := fun text =>
  if text = listJson then some (.obj [("tool", .str "ls"), ("arguments", .obj [])]) else none

theorem quoted_longerFence :
    (parseToolCallsFromText readsList longerFence).1 = [listCall] ∧
    (mergedBlocks readsList longerFence).map ParsedBlock.start = [5] ∧
    markdownCodeRanges longerFence = [(0, longerFence.length)] ∧ Quoted longerFence 5 := by
  have hranges : markdownCodeRanges longerFence = [(0, longerFence.length)] := by decide
  refine ⟨by decide, by decide, hranges, (0, longerFence.length), ?_, ?_, ?_, ?_⟩
  · rw [hranges]
    exact List.mem_singleton.mpr rfl
  · exact Nat.zero_le _
  · decide
  · exact fun h => absurd h.1 (by decide)

end Chelix.Agents
