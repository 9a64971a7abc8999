import Chelix.Library.Selection
import Mathlib.Algebra.Group.Defs
import Mathlib.Data.Finset.Card

/-!
# Fusion of ranked lists

Items with gains are collected under their keys, in a hash map: an entry keeps the first item with
its key and the sum of the gains.  The map is iterated in an order of its own.
-/

namespace Chelix.Library

open List

variable {α κ S : Type*}

/-! ## Collecting gains -/

section Leader

variable [DecidableEq κ] (key : α → κ)

def leader (items : List (α × S)) (c : κ) : Option α :=
  (items.find? fun item => key item.1 = c).map Prod.fst

variable {key} {items : List (α × S)} {a : α} {c : κ}

theorem key_of_leader (h : leader key items c = some a) : key a = c := by
  obtain ⟨item, hitem, rfl⟩ := Option.map_eq_some_iff.mp h
  simpa using List.find?_some hitem

theorem leader_append_singleton (items : List (α × S)) (item : α × S) (c : κ) :
    leader key (items ++ [item]) c =
      (leader key items c).or (if key item.1 = c then some item.1 else none) := by
  unfold leader
  rw [List.find?_append, List.find?_singleton, Option.map_or]
  by_cases h : key item.1 = c
  · rw [if_pos h, if_pos (by simpa using h), Option.map_some]
  · rw [if_neg h, if_neg (by simpa using h), Option.map_none]

theorem leader_isSome_iff : (leader key items c).isSome ↔ ∃ item ∈ items, key item.1 = c := by
  unfold leader
  rw [Option.isSome_map, List.find?_isSome]
  simp only [decide_eq_true_eq]

end Leader

section Fuse

variable [DecidableEq κ] [Zero S] [Add S] (key : α → κ)

/-- One gain is added to the entry with its key, which its item makes if there is none. -/
def addGain (entries : List (α × S)) (item : α × S) : List (α × S) :=
  if entries.any fun entry => key entry.1 = key item.1 then
    entries.map fun entry =>
      if key entry.1 = key item.1 then (entry.1, entry.2 + item.2) else entry
  else entries ++ [(item.1, 0 + item.2)]

def fuse (items : List (α × S)) : List (α × S) := items.foldl (addGain key) []

/-- The sum of the gains under a key. -/
def total (items : List (α × S)) (c : κ) : S :=
  (items.filter fun item => key item.1 = c).foldl (fun sum item => sum + item.2) 0

variable {key} {items : List (α × S)} {item : α × S} {a : α} {c : κ}

theorem total_append_singleton (items : List (α × S)) (item : α × S) (c : κ) :
    total key (items ++ [item]) c =
      if key item.1 = c then total key items c + item.2 else total key items c := by
  unfold total
  rw [filter_append]
  by_cases h : key item.1 = c
  · rw [if_pos h, filter_cons_of_pos (by simpa using h), filter_nil, foldl_append,
      foldl_cons, foldl_nil]
  · rw [if_neg h, filter_cons_of_neg (by simpa using h), filter_nil, append_nil]

theorem total_of_leader_eq_none (h : leader key items c = none) : total key items c = 0 := by
  unfold leader at h
  rw [Option.map_eq_none_iff, List.find?_eq_none] at h
  unfold total
  rw [filter_eq_nil_iff.mpr h, foldl_nil]

/-- The entries are the first items of their keys with the sums of the gains. -/
structure Fused (key : α → κ) (items entries : List (α × S)) : Prop where
  nodup : (entries.map fun entry => key entry.1).Nodup
  mem_iff : ∀ a s, (a, s) ∈ entries ↔
    leader key items (key a) = some a ∧ s = total key items (key a)

theorem Fused.any_iff {entries : List (α × S)} (h : Fused key items entries) (c : κ) :
    (entries.any fun entry => key entry.1 = c) = true ↔ (leader key items c).isSome = true := by
  rw [any_eq_true]
  constructor
  · rintro ⟨⟨a, s⟩, hmem, hkey⟩
    have hleader := ((h.mem_iff a s).mp hmem).1
    rw [of_decide_eq_true hkey] at hleader
    rw [hleader, Option.isSome_some]
  · intro hsome
    obtain ⟨a, ha⟩ := Option.isSome_iff_exists.mp hsome
    obtain rfl := key_of_leader ha
    exact ⟨(a, total key items (key a)), (h.mem_iff a _).mpr ⟨ha, rfl⟩, decide_eq_true rfl⟩

/-- **One more gain.** -/
theorem Fused.addGain {entries : List (α × S)} (h : Fused key items entries) (item : α × S) :
    Fused key (items ++ [item]) (addGain key entries item) := by
  unfold Library.addGain
  by_cases hany : (entries.any fun entry => key entry.1 = key item.1) = true
  · rw [if_pos hany]
    obtain ⟨first, hfirst⟩ := Option.isSome_iff_exists.mp ((h.any_iff _).mp hany)
    refine ⟨?_, fun a s => ?_⟩
    · have hkeys : (entries.map fun entry =>
          if key entry.1 = key item.1 then (entry.1, entry.2 + item.2) else entry).map
            (fun entry => key entry.1) = entries.map fun entry => key entry.1 := by
        rw [map_map]
        refine map_congr_left fun entry _ => ?_
        simp only [Function.comp_apply]
        split <;> rfl
      rw [hkeys]
      exact h.nodup
    · rw [leader_append_singleton, total_append_singleton, mem_map]
      have hleader : (leader key items (key a)).or
          (if key item.1 = key a then some item.1 else none) = leader key items (key a) := by
        by_cases heq : key item.1 = key a
        · rw [← heq, hfirst, Option.some_or]
        · rw [if_neg heq, Option.or_none]
      rw [hleader]
      constructor
      · rintro ⟨⟨b, t⟩, hmem, heq⟩
        obtain ⟨hb, rfl⟩ := (h.mem_iff b t).mp hmem
        by_cases hkey : key b = key item.1
        · rw [if_pos hkey] at heq
          obtain ⟨rfl, rfl⟩ := Prod.mk.inj heq
          exact ⟨hb, (if_pos hkey.symm).symm⟩
        · rw [if_neg hkey] at heq
          obtain ⟨rfl, rfl⟩ := Prod.mk.inj heq
          exact ⟨hb, (if_neg (Ne.symm hkey)).symm⟩
      · rintro ⟨ha, rfl⟩
        refine ⟨(a, total key items (key a)), (h.mem_iff a _).mpr ⟨ha, rfl⟩, ?_⟩
        by_cases hkey : key a = key item.1
        · rw [if_pos hkey, if_pos hkey.symm]
        · rw [if_neg hkey, if_neg (Ne.symm hkey)]
  · rw [if_neg hany]
    have hnone : leader key items (key item.1) = none := by
      rw [← Option.not_isSome_iff_eq_none]
      exact fun hsome => hany ((h.any_iff _).mpr hsome)
    refine ⟨?_, fun a s => ?_⟩
    · rw [map_append, map_singleton, nodup_append]
      refine ⟨h.nodup, nodup_singleton _, ?_⟩
      rintro c hc d hd rfl
      rw [mem_singleton] at hd
      obtain ⟨entry, hentry, hkey⟩ := mem_map.mp hc
      exact hany (any_eq_true.mpr ⟨entry, hentry, decide_eq_true (hkey.trans hd)⟩)
    · rw [leader_append_singleton, total_append_singleton, mem_append, h.mem_iff,
        mem_singleton]
      by_cases hkey : key item.1 = key a
      · rw [← hkey, hnone, if_pos rfl, if_pos rfl, Option.none_or,
          total_of_leader_eq_none hnone, Option.some_inj]
        constructor
        · rintro (⟨hfalse, -⟩ | heq)
          · cases hfalse
          · exact ⟨(congrArg Prod.fst heq).symm, congrArg Prod.snd heq⟩
        · rintro ⟨rfl, rfl⟩
          exact .inr rfl
      · rw [if_neg hkey, if_neg hkey, Option.or_none]
        refine or_iff_left fun heq => hkey ?_
        have hfirst : a = item.1 := congrArg Prod.fst heq
        rw [hfirst]

theorem fused_fuse (items : List (α × S)) : Fused key items (fuse key items) := by
  induction items using List.reverseRecOn with
  | nil => exact ⟨nodup_nil, fun a s => ⟨fun h => absurd h not_mem_nil, fun h => by
      cases h.1⟩⟩
  | append_singleton items item ih =>
    unfold fuse
    rw [foldl_append, foldl_cons, foldl_nil]
    exact ih.addGain item

theorem mem_fuse_iff {s : S} : (a, s) ∈ fuse key items ↔
    leader key items (key a) = some a ∧ s = total key items (key a) :=
  (fused_fuse items).mem_iff a s

theorem nodup_keys_fuse : ((fuse key items).map fun entry => key entry.1).Nodup :=
  (fused_fuse items).nodup

theorem mem_keys_fuse_iff : c ∈ (fuse key items).map (fun entry => key entry.1) ↔
    ∃ item ∈ items, key item.1 = c := by
  rw [← leader_isSome_iff, ← (fused_fuse items).any_iff, any_eq_true, mem_map]
  simp only [decide_eq_true_eq]

def fusedKeys (key : α → κ) (items : List (α × S)) : Finset κ :=
  (items.map fun item => key item.1).toFinset

theorem toFinset_keys_fuse :
    ((fuse key items).map fun entry => key entry.1).toFinset = fusedKeys key items := by
  ext c
  rw [mem_toFinset, mem_keys_fuse_iff, fusedKeys, mem_toFinset, mem_map]

end Fuse

/-! ## Rankings -/

/-- An order in which the entries of a hash map are iterated. -/
structure Iteration (ε : Type*) where
  order : List ε → List ε
  perm : ∀ l, (order l).Perm l

namespace Iteration

variable {ε : Type*}

/-- The order in which the entries were made. -/
def inOrder : Iteration ε := ⟨id, fun _ => List.Perm.refl _⟩

def reversed : Iteration ε := ⟨List.reverse, List.reverse_perm⟩

/-- A given order of some entries, and that in which they were made for all others. -/
noncomputable def given (o : List ε) : Iteration ε where
  order l := open Classical in if o.Perm l then o else l
  perm l := by
    split
    · assumption
    · exact List.Perm.refl _

theorem given_order {o l : List ε} (h : o.Perm l) : (given o).order l = o :=
  if_pos h

end Iteration

section Ranking

variable [LinearOrder S] {entries : List (α × S)} {k : ℕ}

/-- The stable sort of what the iteration gives, from the greatest sum on. -/
def ranking (iteration : Iteration (α × S)) (entries : List (α × S)) : List (α × S) :=
  sortByKey (fun entry => OrderDual.toDual entry.2) (iteration.order entries)

theorem ranking_perm (iteration : Iteration (α × S)) (entries : List (α × S)) :
    (ranking iteration entries).Perm entries :=
  (perm_sortByKey _ _).trans (iteration.perm entries)

theorem ranking_sorted (iteration : Iteration (α × S)) (entries : List (α × S)) :
    (ranking iteration entries).Pairwise fun a b => b.2 ≤ a.2 :=
  pairwise_sortByKey (fun entry : α × S => OrderDual.toDual entry.2) _

/-- **The first entries are the same for every iteration exactly if two different ones with the
same sum have `k` entries with greater sums.** -/
theorem ranking_take_eq_iff :
    (∀ i j : Iteration (α × S), (ranking i entries).take k = (ranking j entries).take k) ↔
    ∀ a ∈ entries, ∀ b ∈ entries, a.2 = b.2 →
      a = b ∨ k ≤ entries.countP fun entry => a.2 < entry.2 := by
  have hties := take_sortByKey_eq_iff (fun entry : α × S => OrderDual.toDual entry.2)
    (l := entries) (k := k)
  constructor
  · intro hall
    refine hties.mp fun l₁ l₂ h₁ h₂ => ?_
    have h := hall (.given l₁) (.given l₂)
    unfold ranking at h
    rwa [Iteration.given_order h₁, Iteration.given_order h₂] at h
  · exact fun h i j => hties.mpr h _ _ (i.perm entries) (j.perm entries)

end Ranking

/-! ## Ties between fused entries -/

section Ties

variable {β : Type*} [DecidableEq κ] [Zero S] [Add S] [LinearOrder S] {key : α → κ}
  {items : List (α × S)} {k : ℕ}

/-- Two different keys with the same sum have `k` keys with greater sums. -/
def TieFree (key : α → κ) (items : List (α × S)) (k : ℕ) : Prop :=
  ∀ c ∈ fusedKeys key items, ∀ d ∈ fusedKeys key items, total key items c = total key items d →
    c = d ∨ k ≤ {other ∈ fusedKeys key items | total key items c < total key items other}.card

instance (key : α → κ) (items : List (α × S)) (k : ℕ) : Decidable (TieFree key items k) :=
  inferInstanceAs (Decidable (∀ _ ∈ _, _))

theorem countP_fuse (sum : S) : ((fuse key items).countP fun entry => sum < entry.2) =
    {other ∈ fusedKeys key items | sum < total key items other}.card := by
  have hcongr : ((fuse key items).countP fun entry => sum < entry.2) =
      (fuse key items).countP fun entry => sum < total key items (key entry.1) := by
    refine countP_congr fun entry hmem => ?_
    rw [(mem_fuse_iff.mp hmem).2]
  have hset : {other ∈ fusedKeys key items | sum < total key items other} =
      (((fuse key items).map fun entry => key entry.1).filter
        fun other => sum < total key items other).toFinset := by
    rw [← toFinset_keys_fuse, toFinset_filter]
    simp only [decide_eq_true_eq]
  rw [hcongr, hset, toFinset_card_of_nodup (nodup_keys_fuse.filter _),
    ← countP_eq_length_filter, countP_map]
  rfl

/-- **Which entries come first depends on the iteration exactly if a tie reaches into them.**  The
entries are seen through a function that still tells their keys. -/
theorem fused_take_eq_iff {f : α × S → β} {g : β → κ} (hg : ∀ entry, g (f entry) = key entry.1) :
    (∀ i j : Iteration (α × S), ((ranking i (fuse key items)).take k).map f =
      ((ranking j (fuse key items)).take k).map f) ↔ TieFree key items k := by
  have hmap : ∀ i j : Iteration (α × S), ((ranking i (fuse key items)).take k).map f =
      ((ranking j (fuse key items)).take k).map f ↔
        (ranking i (fuse key items)).take k = (ranking j (fuse key items)).take k := by
    intro i j
    refine ⟨fun heq => ?_, fun heq => by rw [heq]⟩
    have hmem : ∀ (i : Iteration (α × S)), ∀ entry ∈ (ranking i (fuse key items)).take k,
        entry ∈ fuse key items := fun i entry h =>
      (ranking_perm i _).mem_iff.mp (mem_of_mem_take h)
    refine ext_getElem? fun n => ?_
    have hn := congrArg (·[n]?) heq
    simp only [List.getElem?_map] at hn
    cases ha : ((ranking i (fuse key items)).take k)[n]? with
    | none =>
      rw [ha, Option.map_none, eq_comm, Option.map_eq_none_iff] at hn
      exact hn.symm
    | some a =>
      rw [ha, Option.map_some, eq_comm, Option.map_eq_some_iff] at hn
      obtain ⟨b, hb, hab⟩ := hn
      have hkey : key b.1 = key a.1 := by rw [← hg, ← hg, hab]
      rw [hb, inj_on_of_nodup_map nodup_keys_fuse (hmem j b (mem_of_getElem? hb))
        (hmem i a (mem_of_getElem? ha)) hkey]
  simp only [hmap, ranking_take_eq_iff]
  constructor
  · intro hall c hc d hd heq
    rw [← toFinset_keys_fuse, mem_toFinset, mem_map] at hc hd
    obtain ⟨a, ha, rfl⟩ := hc
    obtain ⟨b, hb, rfl⟩ := hd
    rw [← (mem_fuse_iff.mp ha).2, ← (mem_fuse_iff.mp hb).2] at heq
    rw [← (mem_fuse_iff.mp ha).2, ← countP_fuse]
    exact (hall a ha b hb heq).imp (congrArg fun entry : α × S => key entry.1) id
  · intro hfree a ha b hb heq
    have hkeys : ∀ entry ∈ fuse key items, key entry.1 ∈ fusedKeys key items := fun entry h => by
      rw [← toFinset_keys_fuse, mem_toFinset]
      exact mem_map_of_mem h
    have htotal := heq
    rw [(mem_fuse_iff.mp ha).2, (mem_fuse_iff.mp hb).2] at htotal
    rw [countP_fuse, (mem_fuse_iff.mp ha).2]
    exact (hfree _ (hkeys a ha) _ (hkeys b hb) htotal).imp
      (inj_on_of_nodup_map nodup_keys_fuse ha hb) id

end Ties

/-! ## Fusions -/

section Fusions

variable {β : Type*} [DecidableEq κ] [Zero S] [Add S] [LinearOrder S] {key : α → κ}

/-- A list has each of some keys once, in the order of their sums. -/
structure RanksOnce (key : β → κ) (score : β → S) (keys : Finset κ) (sum : κ → S)
    (results : List β) : Prop where
  nodup : (results.map key).Nodup
  mem_iff : ∀ c, c ∈ results.map key ↔ c ∈ keys
  score_eq : ∀ r ∈ results, score r = sum (key r)
  sorted : results.Pairwise fun a b => score b ≤ score a

omit [DecidableEq κ] [Zero S] [Add S] in
/-- What has a greater sum is never behind. -/
theorem RanksOnce.dominance {key : β → κ} {score : β → S} {keys : Finset κ} {sum : κ → S}
    {results : List β} (h : RanksOnce key score keys sum results) {above : κ → κ → Prop}
    (habove : ∀ c d, above c d → sum d < sum c) :
    results.Pairwise fun a b => ¬ above (key b) (key a) := by
  refine (pairwise_iff_forall_sublist.mpr fun {a b} hsub hab => ?_)
  have hle : score b ≤ score a := pairwise_iff_forall_sublist.mp h.sorted hsub
  rw [h.score_eq a (hsub.subset (by simp)), h.score_eq b (hsub.subset (by simp))] at hle
  exact absurd (habove _ _ hab) (not_lt.mpr hle)

omit [DecidableEq κ] [Zero S] [Add S] in
theorem RanksOnce.map {key : β → κ} {score : β → S} {keys : Finset κ} {sum : κ → S}
    {l : List α} {f : α → β}
    (h : RanksOnce (fun a => key (f a)) (fun a => score (f a)) keys sum l) :
    RanksOnce key score keys sum (l.map f) := by
  refine ⟨?_, fun c => ?_, fun r hr => ?_, pairwise_map.mpr h.sorted⟩
  · rw [map_map]
    exact h.nodup
  · rw [map_map]
    exact h.mem_iff c
  · obtain ⟨a, ha, rfl⟩ := mem_map.mp hr
    exact h.score_eq a ha

/-- **A ranking has every key once, by the sum of its gains.** -/
theorem ranking_ranksOnce (iteration : Iteration (α × S)) (items : List (α × S)) :
    RanksOnce (fun entry => key entry.1) Prod.snd (fusedKeys key items) (total key items)
      (ranking iteration (fuse key items)) := by
  have hperm := ranking_perm iteration (fuse key items)
  refine ⟨?_, fun c => ?_, fun entry hmem => ?_, ranking_sorted _ _⟩
  · exact (hperm.map _).nodup_iff.mpr nodup_keys_fuse
  · rw [(hperm.map _).mem_iff, ← toFinset_keys_fuse, mem_toFinset]
  · exact (mem_fuse_iff.mp (hperm.mem_iff.mp hmem)).2

omit [LinearOrder S] in
/-- Keys that tell the items apart in the same way make the same entries. -/
theorem fuse_congr {key' : α → β} [DecidableEq β] {items : List (α × S)}
    (h : ∀ a ∈ items, ∀ b ∈ items, key a.1 = key b.1 ↔ key' a.1 = key' b.1) :
    fuse key items = fuse key' items := by
  induction items using List.reverseRecOn with
  | nil => rfl
  | append_singleton items item ih =>
    have hsame : fuse key items = fuse key' items :=
      ih fun a ha b hb => h a (mem_append_left _ ha) b (mem_append_left _ hb)
    have hentries : ∀ entry ∈ fuse key items, key entry.1 = key item.1 ↔
        key' entry.1 = key' item.1 := by
      intro entry hmem
      obtain ⟨first, hfirst, heq⟩ := Option.map_eq_some_iff.mp (mem_fuse_iff.mp hmem).1
      have hin := h first (mem_append_left _ (mem_of_find?_eq_some hfirst)) item
        (by simp)
      rwa [heq] at hin
    unfold fuse at hsame hentries ⊢
    rw [foldl_append, foldl_cons, foldl_nil, foldl_append, foldl_cons,
      foldl_nil, ← hsame]
    generalize List.foldl (addGain key) [] items = entries at hentries
    unfold addGain
    have hany : (entries.any fun entry => key entry.1 = key item.1) =
        entries.any fun entry => key' entry.1 = key' item.1 := by
      rw [Bool.eq_iff_iff, any_eq_true, any_eq_true]
      refine exists_congr fun entry => and_congr_right fun hmem => ?_
      rw [decide_eq_true_iff, decide_eq_true_iff, hentries entry hmem]
    have hmap : (entries.map fun entry =>
        if key entry.1 = key item.1 then (entry.1, entry.2 + item.2) else entry) =
          entries.map fun entry =>
            if key' entry.1 = key' item.1 then (entry.1, entry.2 + item.2) else entry := by
      refine map_congr_left fun entry hmem => ?_
      simp only [hentries entry hmem]
    rw [hany, hmap]

end Fusions

/-! ## Gains of lists without repetition -/

section Shares

variable [DecidableEq κ] [AddMonoid S] {key : α → κ}

theorem total_append (items others : List (α × S)) (c : κ) :
    total key (items ++ others) c = total key items c + total key others c := by
  induction others using List.reverseRecOn with
  | nil => rw [append_nil, total, total, filter_nil, foldl_nil, add_zero]
  | append_singleton others item ih =>
    rw [← append_assoc, total_append_singleton, total_append_singleton, ih]
    split
    · rw [add_assoc]
    · rfl

theorem total_cons (item : α × S) (items : List (α × S)) (c : κ) :
    total key (item :: items) c =
      if key item.1 = c then item.2 + total key items c else total key items c := by
  have hone : total key [item] c = if key item.1 = c then item.2 else 0 := by
    rw [← nil_append [item], total_append_singleton]
    unfold total
    rw [filter_nil, foldl_nil, zero_add]
  rw [← singleton_append, total_append, hone]
  split
  · rfl
  · rw [zero_add]

theorem total_of_nodup {items : List (α × S)} (h : (items.map fun item => key item.1).Nodup)
    (c : κ) : total key items c =
      ((items.find? fun item => key item.1 = c).map Prod.snd).getD 0 := by
  induction items with
  | nil => rfl
  | cons item items ih =>
    rw [map_cons, nodup_cons] at h
    rw [total_cons]
    by_cases hkey : key item.1 = c
    · have hrest : total key items c = 0 := by
        refine total_of_leader_eq_none ?_
        rw [← Option.not_isSome_iff_eq_none, leader_isSome_iff]
        rintro ⟨other, hmem, hother⟩
        exact h.1 (mem_map.mpr ⟨other, hmem, hother.trans hkey.symm⟩)
      rw [if_pos hkey, hrest, List.find?_cons_of_pos (by simpa using hkey), add_zero]
      rfl
    · rw [if_neg hkey, List.find?_cons_of_neg (by simpa using hkey), ih h.2]

theorem total_mapIdx {l : List α} (h : (l.map key).Nodup) (g : ℕ → S) (c : κ) :
    total key (l.mapIdx fun i a => (a, g i)) c =
      ((l.findIdx? fun a => key a = c).map g).getD 0 := by
  induction l generalizing g with
  | nil => rfl
  | cons a l ih =>
    rw [map_cons, nodup_cons] at h
    rw [mapIdx_cons, total_cons, List.findIdx?_cons]
    have hrest := ih h.2 fun i => g (i + 1)
    by_cases hkey : key a = c
    · have hnone : (l.findIdx? fun a => key a = c) = none := by
        refine List.findIdx?_eq_none_iff.mpr fun b hb => decide_eq_false fun heq => ?_
        exact h.1 (mem_map.mpr ⟨b, hb, heq.trans hkey.symm⟩)
      rw [hrest, hnone, if_pos hkey, if_pos (decide_eq_true hkey)]
      exact add_zero _
    · rw [hrest, if_neg hkey, if_neg (by simpa using hkey), Option.map_map]
      rfl

end Shares

end Chelix.Library
