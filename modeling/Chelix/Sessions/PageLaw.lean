import Chelix.Library.Selection
import Chelix.Sessions.StoredLaw

/-!
# Pages of a history

A page is put together from a limited number of rows and the entries in memory.  A row that the
limit drops has so many others between it and the page that it does not belong to it.
-/

namespace Chelix.Sessions

open Chelix.Library Chelix.Common List OrderedMap StoredSession

/-! ## Merging -/

theorem get_foldl_snapshots (entries : List UiEntry) (merged : OrderedMap UiMessageId UiSnapshot)
    (id : UiMessageId) :
    (entries.foldl (fun merged entry => merged.insert entry.snapshot.id entry.snapshot)
      merged)[id]? =
      ((entries.reverse.find? fun entry => entry.snapshot.id = id).map UiEntry.snapshot).or
        merged[id]? := by
  induction entries generalizing merged with
  | nil => rfl
  | cons entry entries ih =>
    rw [foldl_cons, ih, reverse_cons, List.find?_append, get_insert]
    cases hfind : entries.reverse.find? fun entry => decide (entry.snapshot.id = id) with
    | some last => rfl
    | none =>
      by_cases hid : entry.snapshot.id = id
      · simp [hid]
      · simp [hid]

variable {id : UiMessageId} {entry : UiEntry}

theorem entry_of_find? {entries : List UiEntry}
    (h : entries.find? (fun entry => entry.snapshot.id = id) = some entry) :
    entry ∈ entries ∧ entry.snapshot.id = id := by
  refine ⟨mem_of_find?_eq_some h, ?_⟩
  have hid := List.find?_some h
  exact of_decide_eq_true hid

variable {n : Numbering UiMessageId} {stored : EntryMap} {s : UiState}

theorem find_values {entries : EntryMap} (h : Placed n entries) (id : UiMessageId) :
    (entries.toList.map Prod.snd).reverse.find? (fun entry => entry.snapshot.id = id) =
      entries[id]? := by
  cases hentry : entries[id]? with
  | none =>
    rw [List.find?_eq_none]
    intro entry hmem hid
    obtain ⟨id', hid'⟩ := mem_values.mp (mem_reverse.mp hmem)
    rw [(h id' entry hid').1] at hid
    rw [of_decide_eq_true hid, hentry] at hid'
    cases hid'
  | some entry =>
    cases hfind : (entries.toList.map Prod.snd).reverse.find?
        fun entry => decide (entry.snapshot.id = id) with
    | none =>
      have hmem := mem_reverse.mpr (mem_values.mpr ⟨id, hentry⟩)
      have := List.find?_eq_none.mp hfind entry hmem
      exact absurd (decide_eq_true (h id entry hentry).1) this
    | some other =>
      obtain ⟨hmem, hid⟩ := entry_of_find? hfind
      obtain ⟨id', hid'⟩ := mem_values.mp (mem_reverse.mp hmem)
      rw [(h id' other hid').1] at hid
      rw [hid, hentry] at hid'
      exact hid'.symm

variable {rows : List UiEntry} {x : UiSnapshot}

theorem mem_mergeEntries (hs : Counted n stored s)
    (hrows : ∀ entry ∈ rows, ∃ id : UiMessageId, stored[id]? = some entry) :
    x ∈ mergeEntries rows (s.entries.toList.map Prod.snd) ↔
      ∃ (id : UiMessageId) (entry : UiEntry), entry.snapshot = x ∧
        (s.entries[id]? = some entry ∨
          (s.entries[id]? = none ∧ stored[id]? = some entry ∧ entry ∈ rows)) := by
  have hmem : x ∈ mergeEntries rows (s.entries.toList.map Prod.snd) ↔
      ∃ id : UiMessageId, ((s.entries[id]?.or
        (rows.reverse.find? fun entry => entry.snapshot.id = id)).map UiEntry.snapshot) =
          some x := by
    unfold mergeEntries
    rw [mem_map]
    constructor
    · rintro ⟨⟨id, _⟩, hmem, rfl⟩
      refine ⟨id, ?_⟩
      have hget := mem_toList.mp hmem
      rw [get_foldl_snapshots, reverse_append, List.find?_append, find_values hs.held] at hget
      simpa using hget
    · rintro ⟨id, hget⟩
      refine ⟨(id, x), mem_toList.mpr ?_, rfl⟩
      rw [get_foldl_snapshots, reverse_append, List.find?_append, find_values hs.held]
      simpa using hget
  rw [hmem]
  constructor
  · rintro ⟨id, hget⟩
    obtain ⟨entry, hentry, rfl⟩ := Option.map_eq_some_iff.mp hget
    refine ⟨id, entry, rfl, ?_⟩
    rcases Option.or_eq_some_iff.mp hentry with hheld | ⟨hnone, hfind⟩
    · exact .inl hheld
    · obtain ⟨hrow, hid⟩ := entry_of_find? hfind
      obtain ⟨id', hid'⟩ := hrows entry (mem_reverse.mp hrow)
      rw [(hs.rows id' entry hid').1] at hid
      exact .inr ⟨hnone, hid ▸ hid', mem_reverse.mp hrow⟩
  · rintro ⟨id, entry, rfl, hheld | ⟨hnone, hstored, hrow⟩⟩
    · exact ⟨id, by rw [hheld]; rfl⟩
    · refine ⟨id, ?_⟩
      cases hfind : rows.reverse.find? fun entry => decide (entry.snapshot.id = id) with
      | none =>
        have := List.find?_eq_none.mp hfind entry (mem_reverse.mpr hrow)
        exact absurd (decide_eq_true (hs.rows id entry hstored).1) this
      | some other =>
        obtain ⟨hother, hid⟩ := entry_of_find? hfind
        obtain ⟨id', hid'⟩ := hrows other (mem_reverse.mp hother)
        rw [(hs.rows id' other hid').1] at hid
        rw [hid, hstored] at hid'
        rw [hnone, Option.some.inj hid']
        rfl

theorem nodup_mergeEntries (rows held : List UiEntry) : (mergeEntries rows held).Nodup := by
  unfold mergeEntries
  refine pairwise_map.mpr ((pairwise_toList _).imp_of_mem ?_)
  intro a b ha hb hlt heq
  have hid : ∀ entry ∈ ((rows ++ held).foldl
      (fun merged entry => merged.insert entry.snapshot.id entry.snapshot)
      (∅ : OrderedMap UiMessageId UiSnapshot)).toList, entry.2.id = entry.1 := by
    rintro ⟨id, x⟩ hmem
    have hget := mem_toList.mp hmem
    rw [get_foldl_snapshots] at hget
    rcases Option.or_eq_some_iff.mp hget with hget | ⟨-, hget⟩
    · obtain ⟨entry, hfind, rfl⟩ := Option.map_eq_some_iff.mp hget
      exact (entry_of_find? hfind).2
    · cases hget
  rw [← hid a ha, ← hid b hb, heq] at hlt
  exact lt_irrefl _ hlt

/-! ## The history -/

section History

variable {t : StoredSession}

theorem mem_snapshots :
    x ∈ t.snapshots ↔ ∃ (id : UiMessageId) (entry : UiEntry), entry.snapshot = x ∧
      (t.state.entries[id]? = some entry ∨
        (t.state.entries[id]? = none ∧ t.stored[id]? = some entry)) := by
  unfold snapshots history
  rw [mem_map]
  constructor
  · rintro ⟨⟨id, entry⟩, hmem, rfl⟩
    have hget := mem_toList.mp hmem
    rw [Std.ExtTreeMap.getElem?_union] at hget
    exact ⟨id, entry, rfl, Option.or_eq_some_iff.mp hget⟩
  · rintro ⟨id, entry, rfl, hget⟩
    refine ⟨(id, entry), mem_toList.mpr ?_, rfl⟩
    rw [Std.ExtTreeMap.getElem?_union]
    exact Option.or_eq_some_iff.mpr hget

theorem exists_snapshot_iff (hs : Counted n t.stored t.state) (position : ℕ) :
    (∃ x ∈ t.snapshots, x.position = position) ↔ ∃ id, n.number id = some position := by
  constructor
  · rintro ⟨x, hx, rfl⟩
    obtain ⟨id, entry, rfl, hheld | ⟨-, hstored⟩⟩ := mem_snapshots.mp hx
    · exact ⟨id, (hs.held id entry hheld).2⟩
    · exact ⟨id, (hs.rows id entry hstored).2⟩
  · rintro ⟨id, hnumber⟩
    have hcovers := hs.covers id (by rw [hnumber]; exact Option.some_ne_none _)
    cases hheld : t.state.entries[id]? with
    | some entry =>
      refine ⟨entry.snapshot, mem_snapshots.mpr ⟨id, entry, rfl, .inl hheld⟩, ?_⟩
      have hplace := (hs.held id entry hheld).2
      rw [hnumber] at hplace
      exact (Option.some.inj hplace).symm
    | none =>
      rcases hcovers with hstored | hmem
      · obtain ⟨entry, hentry⟩ := held_iff_exists.mp hstored
        refine ⟨entry.snapshot, mem_snapshots.mpr ⟨id, entry, rfl, .inr ⟨hheld, hentry⟩⟩, ?_⟩
        have hplace := (hs.rows id entry hentry).2
        rw [hnumber] at hplace
        exact (Option.some.inj hplace).symm
      · obtain ⟨entry, hentry⟩ := held_iff_exists.mp hmem
        rw [hheld] at hentry
        cases hentry

theorem exists_snapshot_of_row (hs : Counted n t.stored t.state)
    (hentry : t.stored[id]? = some entry) :
    ∃ x ∈ t.snapshots, x.position = entry.snapshot.position :=
  (exists_snapshot_iff hs _).mpr ⟨id, (hs.rows id entry hentry).2⟩

theorem nodup_positions {entries : EntryMap} (hsound : n.Sound) (h : Placed n entries) :
    ((entries.toList.map Prod.snd).map fun entry => entry.snapshot.position).Nodup := by
  rw [map_map]
  refine pairwise_map.mpr ((pairwise_toList entries).imp_of_mem ?_)
  rintro ⟨id, entry⟩ ⟨id', entry'⟩ ha hb hlt heq
  have hnumber := (h id entry (mem_toList.mp ha)).2
  have hnumber' := (h id' entry' (mem_toList.mp hb)).2
  have hsame : entry.snapshot.position = entry'.snapshot.position := heq
  rw [← hsame] at hnumber'
  exact ne_of_lt hlt (hsound.injective id id' _ hnumber hnumber')

theorem nodup_snapshots (hs : Counted n t.stored t.state) :
    (t.snapshots.map fun x => x.position).Nodup := by
  have hplaced : Placed n t.history := hs.rows.union hs.held
  have hnodup := nodup_positions hs.sound hplaced
  unfold snapshots
  rw [map_map] at hnodup ⊢
  exact hnodup

/-! ## Limited queries -/

def rowsBetween (stored : EntryMap) (lower upper : Option ℕ) : List UiEntry :=
  (stored.toList.map Prod.snd).filter fun entry =>
    lower.all (fun lower => lower < entry.snapshot.position) &&
      upper.all (fun upper => entry.snapshot.position < upper)

variable {lower upper : Option ℕ} {limit : ℕ}

theorem mem_storedEntries (hsound : n.Sound) (hrows : Placed n stored) {newest : Bool} :
    entry ∈ storedEntries stored lower upper newest limit ↔
      entry ∈ rowsBetween stored lower upper ∧
        ((rowsBetween stored lower upper).filter fun other =>
          if newest then entry.snapshot.position < other.snapshot.position
          else other.snapshot.position < entry.snapshot.position).length < limit := by
  have hnodup : ((rowsBetween stored lower upper).map
      fun entry => entry.snapshot.position).Nodup :=
    (nodup_positions hsound hrows).sublist (filter_sublist.map _)
  unfold storedEntries
  cases newest with
  | true =>
    simp only [if_true]
    exact mem_take_reverse_sortByKey (fun entry : UiEntry => entry.snapshot.position) hnodup
  | false =>
    simp only [Bool.false_eq_true, if_false]
    exact mem_take_sortByKey (fun entry : UiEntry => entry.snapshot.position) hnodup

theorem exists_row_of_mem {newest : Bool}
    (h : entry ∈ storedEntries stored lower upper newest limit) :
    ∃ id : UiMessageId, stored[id]? = some entry := by
  unfold storedEntries at h
  have hmem := mem_of_mem_take h
  refine mem_values.mp (mem_of_mem_filter (p := fun entry : UiEntry =>
    lower.all (fun lower => lower < entry.snapshot.position) &&
      upper.all (fun upper => entry.snapshot.position < upper)) ?_)
  cases newest with
  | true => exact (mem_sortByKey _).mp (mem_reverse.mp hmem)
  | false => exact (mem_sortByKey _).mp hmem

theorem length_le_of_positions {snapshots : List UiSnapshot}
    (hrows : (rows.map fun entry => entry.snapshot.position).Nodup)
    (h : ∀ entry ∈ rows, ∃ x ∈ snapshots, x.position = entry.snapshot.position) :
    rows.length ≤ snapshots.length := by
  have hsub : (rows.map fun entry => entry.snapshot.position) ⊆
      snapshots.map fun x => x.position := by
    intro position hposition
    obtain ⟨entry, hentry, rfl⟩ := mem_map.mp hposition
    obtain ⟨x, hx, heq⟩ := h entry hentry
    exact heq ▸ mem_map_of_mem hx
  have hle := (subperm_of_subset hrows hsub).length_le
  rwa [length_map, length_map] at hle

theorem length_rows_le (hs : Counted n t.stored t.state) {front : UiEntry → Bool}
    {before : UiSnapshot → Bool}
    (h : ∀ (entry : UiEntry) (x : UiSnapshot), x.position = entry.snapshot.position →
      entry ∈ rowsBetween t.stored lower upper → front entry = true → before x = true) :
    ((rowsBetween t.stored lower upper).filter front).length ≤
      (t.snapshots.filter before).length := by
  refine length_le_of_positions ?_ fun entry hentry => ?_
  · exact (nodup_positions hs.sound hs.rows).sublist
      ((filter_sublist.trans filter_sublist).map _)
  · obtain ⟨hmem, hfront⟩ := mem_filter.mp hentry
    obtain ⟨id, hid⟩ := mem_values.mp (mem_of_mem_filter hmem)
    obtain ⟨x, hx, heq⟩ := exists_snapshot_of_row hs hid
    exact ⟨x, mem_filter.mpr ⟨hx, h entry x heq hmem hfront⟩, heq⟩

/-! ## Pages -/

/-- Whether a snapshot is between the bounds of a page. -/
def between (lower upper : Option ℕ) (x : UiSnapshot) : Bool :=
  lower.all (fun lower => lower < x.position) && upper.all (fun upper => x.position < upper)

theorem merged_subset (hs : Counted n t.stored t.state)
    (hrows : ∀ entry ∈ rows, ∃ id : UiMessageId, t.stored[id]? = some entry) :
    mergeEntries rows (t.state.entries.toList.map Prod.snd) ⊆ t.snapshots := by
  intro x hx
  obtain ⟨id, entry, rfl, hheld | ⟨hnone, hstored, -⟩⟩ := (mem_mergeEntries hs hrows).mp hx
  · exact mem_snapshots.mpr ⟨id, entry, rfl, .inl hheld⟩
  · exact mem_snapshots.mpr ⟨id, entry, rfl, .inr ⟨hnone, hstored⟩⟩

theorem mem_merged (hs : Counted n t.stored t.state)
    (hrows : ∀ entry ∈ rows, ∃ id : UiMessageId, t.stored[id]? = some entry) (hx : x ∈ t.snapshots)
    (hread : ∀ (id : UiMessageId) (entry : UiEntry), entry.snapshot = x →
      t.stored[id]? = some entry → entry ∈ rows) :
    x ∈ mergeEntries rows (t.state.entries.toList.map Prod.snd) := by
  obtain ⟨id, entry, rfl, hheld | ⟨hnone, hstored⟩⟩ := mem_snapshots.mp hx
  · exact (mem_mergeEntries hs hrows).mpr ⟨id, entry, rfl, .inl hheld⟩
  · exact (mem_mergeEntries hs hrows).mpr
      ⟨id, entry, rfl, .inr ⟨hnone, hstored, hread id entry rfl hstored⟩⟩

theorem mem_rowsBetween (hentry : t.stored[id]? = some entry)
    (hbetween : between lower upper entry.snapshot = true) :
    entry ∈ rowsBetween t.stored lower upper :=
  mem_filter.mpr ⟨mem_values.mpr ⟨id, hentry⟩, hbetween⟩

theorem sortByKey_reverse {snapshots : List UiSnapshot}
    (h : snapshots.Pairwise fun a b => a.position < b.position) :
    sortByKey (fun x : UiSnapshot => x.position) snapshots.reverse = snapshots := by
  have hirrefl : Std.Irrefl fun a b : UiSnapshot => a.position < b.position :=
    ⟨fun a => lt_irrefl _⟩
  have hnodup : (snapshots.reverse.map fun x => x.position).Nodup := by
    rw [map_reverse, nodup_reverse]
    exact pairwise_map.mpr (h.imp fun hlt => ne_of_lt hlt)
  refine List.Pairwise.eq_of_mem_iff (pairwise_lt_sortByKey _ hnodup) h fun a => ?_
  rw [mem_sortByKey, mem_reverse]

/-- **The page of a range with bounds** shows the newest or the oldest snapshots between them. -/
theorem shown_between (hs : Counted n t.stored t.state) {bounds : PageBounds}
    (haround : bounds.around = none) (limit : ℕ) :
    shownSnapshots bounds limit (mergeEntries (storedPage t.stored bounds limit)
        (t.state.entries.toList.map Prod.snd)) =
      (if bounds.newest then newestSnapshots limit else oldestSnapshots limit)
        (t.snapshots.filter (between bounds.lower bounds.upper)) := by
  have hrowsdef : storedPage t.stored bounds limit =
      storedEntries t.stored bounds.lower bounds.upper bounds.newest limit := by
    unfold storedPage
    rw [haround]
  have hrows : ∀ entry ∈ storedPage t.stored bounds limit,
      ∃ id : UiMessageId, t.stored[id]? = some entry := by
    intro entry hentry
    rw [hrowsdef] at hentry
    exact exists_row_of_mem hentry
  have hfull : ((t.snapshots.filter (between bounds.lower bounds.upper)).map
      fun x => x.position).Nodup :=
    (nodup_snapshots hs).sublist (filter_sublist.map _)
  have hpart := (nodup_mergeEntries (storedPage t.stored bounds limit)
    (t.state.entries.toList.map Prod.snd)).filter (between bounds.lower bounds.upper)
  have hsub : (mergeEntries (storedPage t.stored bounds limit)
      (t.state.entries.toList.map Prod.snd)).filter (between bounds.lower bounds.upper) ⊆
      t.snapshots.filter (between bounds.lower bounds.upper) := by
    intro x hx
    obtain ⟨hmem, hbetween⟩ := mem_filter.mp hx
    exact mem_filter.mpr ⟨merged_subset hs hrows hmem, hbetween⟩
  -- a stored row with few snapshots in front of it is read
  have hread : ∀ x ∈ t.snapshots.filter (between bounds.lower bounds.upper),
      ((t.snapshots.filter (between bounds.lower bounds.upper)).filter fun y =>
        if bounds.newest then x.position < y.position else y.position < x.position).length <
          limit → x ∈ (mergeEntries (storedPage t.stored bounds limit)
            (t.state.entries.toList.map Prod.snd)).filter (between bounds.lower bounds.upper) := by
    intro x hx hfew
    obtain ⟨hmem, hbetween⟩ := mem_filter.mp hx
    refine mem_filter.mpr ⟨mem_merged hs hrows hmem fun id entry heq hentry => ?_, hbetween⟩
    subst heq
    rw [hrowsdef, mem_storedEntries hs.sound hs.rows]
    refine ⟨mem_rowsBetween hentry hbetween, lt_of_le_of_lt ?_ hfew⟩
    rw [filter_filter]
    refine length_rows_le hs fun other y hy hother hfront => ?_
    rw [hy, Bool.and_eq_true]
    refine ⟨hfront, ?_⟩
    unfold between
    rw [hy]
    exact (mem_filter.mp hother).2
  have hshown : ∀ merged : List UiSnapshot, shownSnapshots bounds limit merged =
      sortByKey (fun x : UiSnapshot => x.position)
        ((if bounds.newest then
            (sortByKey (fun x : UiSnapshot => x.position)
              (merged.filter (between bounds.lower bounds.upper))).reverse
          else sortByKey (fun x : UiSnapshot => x.position)
            (merged.filter (between bounds.lower bounds.upper))).take limit) := by
    intro merged
    unfold shownSnapshots
    rw [haround]
    rfl
  have hsorted := pairwise_lt_sortByKey (fun x : UiSnapshot => x.position) hfull
  rw [hshown]
  cases hnewest : bounds.newest with
  | true =>
    rw [hnewest] at hread
    simp only [if_true] at hread ⊢
    rw [take_reverse_sortByKey_of_subset (fun x : UiSnapshot => x.position) hfull hpart hsub hread,
      take_reverse, sortByKey_reverse (hsorted.sublist (drop_sublist _ _))]
    rfl
  | false =>
    rw [hnewest] at hread
    simp only [Bool.false_eq_true, if_false] at hread ⊢
    rw [take_sortByKey_of_subset (fun x : UiSnapshot => x.position) hfull hpart hsub hread,
      sortByKey_of_pairwise _ ((hsorted.imp fun hlt => le_of_lt hlt).sublist
        (take_sublist _ _))]
    rfl

theorem nearness_injective (target : ℕ) (a b : UiSnapshot)
    (h : nearness target a = nearness target b) : a.position = b.position := by
  have := congrArg (fun k : ℕ ×ₗ ℕ => (ofLex k).2) h
  exact this

theorem nearness_lt {target : ℕ} {a b : UiSnapshot}
    (h : (a.position < b.position ∧ b.position < target) ∨
      (target ≤ b.position ∧ b.position < a.position)) : nearness target b < nearness target a := by
  unfold nearness
  refine Prod.Lex.toLex_lt_toLex.mpr (.inl ?_)
  simp only
  omega

/-- **The page around a position** shows the nearest snapshots. -/
theorem shown_around (hs : Counted n t.stored t.state) (target limit : ℕ) :
    shownSnapshots ⟨none, none, true, some target⟩ limit
        (mergeEntries (storedPage t.stored ⟨none, none, true, some target⟩ limit)
          (t.state.entries.toList.map Prod.snd)) =
      nearestSnapshots target limit t.snapshots := by
  have hrows : ∀ entry ∈ storedPage t.stored ⟨none, none, true, some target⟩ limit,
      ∃ id : UiMessageId, t.stored[id]? = some entry := by
    intro entry hentry
    rcases mem_append.mp hentry with hentry | hentry
    · exact exists_row_of_mem hentry
    · exact exists_row_of_mem hentry
  have hfull : (t.snapshots.map (nearness target)).Nodup := by
    refine List.Nodup.map_on (fun a ha b hb heq => ?_) (nodup_snapshots hs).of_map
    exact inj_on_of_nodup_map (nodup_snapshots hs) ha hb (nearness_injective target a b heq)
  have hread : ∀ x ∈ t.snapshots,
      (t.snapshots.filter fun y => nearness target y < nearness target x).length < limit →
      x ∈ mergeEntries (storedPage t.stored ⟨none, none, true, some target⟩ limit)
        (t.state.entries.toList.map Prod.snd) := by
    intro x hx hfew
    refine mem_merged hs hrows hx fun id entry heq hentry => ?_
    subst heq
    refine mem_append.mpr ?_
    by_cases hside : entry.snapshot.position < target
    · left
      rw [mem_storedEntries hs.sound hs.rows]
      have hbetween : between none (some target) entry.snapshot = true := by
        unfold between
        simpa using hside
      refine ⟨mem_rowsBetween hentry hbetween, lt_of_le_of_lt ?_ hfew⟩
      refine length_rows_le hs fun other y hy hother hfront => decide_eq_true (nearness_lt (.inl ?_))
      have hupper := (mem_filter.mp hother).2
      simp only [Option.all_none, Option.all_some, Bool.true_and, decide_eq_true_eq, if_true]
        at hupper hfront
      exact ⟨by omega, by omega⟩
    · right
      rw [mem_storedEntries hs.sound hs.rows]
      have hprevious : ∀ position : ℕ, (previousPosition target).all
          (fun lower => lower < position) = true ↔ target ≤ position := by
        intro position
        rw [all_previousPosition, decide_eq_true_iff]
      have hbetween : between (previousPosition target) none entry.snapshot = true := by
        unfold between
        rw [Option.all_none, Bool.and_true, hprevious]
        omega
      refine ⟨mem_rowsBetween hentry hbetween, lt_of_le_of_lt ?_ hfew⟩
      refine length_rows_le hs fun other y hy hother hfront => decide_eq_true (nearness_lt (.inr ?_))
      have hlower := (mem_filter.mp hother).2
      rw [Option.all_none, Bool.and_true, hprevious] at hlower
      simp only [Bool.false_eq_true, if_false, decide_eq_true_eq] at hfront
      exact ⟨by omega, by omega⟩
  have hshown : ∀ merged : List UiSnapshot,
      shownSnapshots ⟨none, none, true, some target⟩ limit merged =
        nearestSnapshots target limit merged := by
    intro merged
    unfold shownSnapshots nearestSnapshots
    simp only [Option.all_none, Bool.and_self, filter_true]
    rfl
  rw [hshown]
  unfold nearestSnapshots
  rw [take_sortByKey_of_subset (nearness target) hfull (nodup_mergeEntries _ _)
    (merged_subset hs hrows) hread]

/-- The bounds of a range that is answered. -/
def StoredSession.pageBounds (t : StoredSession) : UiHistoryRange → PageBounds
  | .latest => ⟨none, none, true, none⟩
  | .before position => ⟨none, some position, true, none⟩
  | .after position => ⟨some position, none, false, none⟩
  | .window start stop => ⟨previousPosition start, stop, stop.isNone, none⟩
  | .around messageId =>
    ⟨none, none, true,
      some ((t.history[messageId]?.map fun entry => entry.snapshot.position).getD 0)⟩

theorem forall_mem_none {P : ℕ → Prop} : ∀ value ∈ (none : Option ℕ), P value := by
  intro value h
  cases h

theorem columns_ok_iff {bounds : PageBounds} {u : Unit} :
    bounds.columns = .ok u ↔
      (∀ lower ∈ bounds.lower, lower < 2 ^ 63) ∧ ∀ upper ∈ bounds.upper, upper < 2 ^ 63 := by
  have hforM : ∀ (bound : Option ℕ) (v : Unit), (bound.forM integer : Except Error Unit) = .ok v ↔
      ∀ value ∈ bound, value < 2 ^ 63 := by
    intro bound v
    cases bound with
    | none => exact iff_of_true rfl forall_mem_none
    | some value =>
      refine integer_ok_iff.trans ⟨fun h _ heq => ?_, fun h => h value rfl⟩
      obtain rfl := Option.some.inj heq
      exact h
  unfold PageBounds.columns
  rw [bind_eq_ok]
  constructor
  · rintro ⟨v, hlower, hupper⟩
    exact ⟨(hforM _ _).mp hlower, (hforM _ _).mp hupper⟩
  · rintro ⟨hlower, hupper⟩
    exact ⟨(), (hforM _ _).mpr hlower, (hforM _ _).mpr hupper⟩

theorem limitColumn_ok_iff {u : Unit} : limitColumn limit = .ok u ↔ limit < 2 ^ 63 := by
  unfold limitColumn
  split <;> simp_all

theorem bounds_ok_iff {range : UiHistoryRange} (hfailure : t.state.failure = none)
    (P : PageBounds → Prop) :
    (∃ target bounds, t.aroundTarget range = .ok target ∧ range.bounds target = .ok bounds ∧
      (∀ lower ∈ bounds.lower, lower < 2 ^ 63) ∧ (∀ upper ∈ bounds.upper, upper < 2 ^ 63) ∧
      limit < 2 ^ 63 ∧ P bounds) ↔ Answers t limit range ∧ P (t.pageBounds range) := by
  cases range with
  | latest =>
    constructor
    · rintro ⟨_, _, htarget, hbounds, -, -, hlimit, hP⟩
      cases hbounds
      exact ⟨hlimit, hP⟩
    · rintro ⟨hlimit, hP⟩
      exact ⟨none, _, rfl, rfl, forall_mem_none, forall_mem_none, hlimit, hP⟩
  | before position =>
    constructor
    · rintro ⟨_, _, htarget, hbounds, -, hupper, hlimit, hP⟩
      cases hbounds
      exact ⟨⟨hupper position rfl, hlimit⟩, hP⟩
    · rintro ⟨⟨hupper, hlimit⟩, hP⟩
      refine ⟨none, _, rfl, rfl, forall_mem_none, fun _ h => ?_, hlimit, hP⟩
      cases h
      exact hupper
  | after position =>
    constructor
    · rintro ⟨_, _, htarget, hbounds, hlower, -, hlimit, hP⟩
      cases hbounds
      exact ⟨⟨hlower position rfl, hlimit⟩, hP⟩
    · rintro ⟨⟨hlower, hlimit⟩, hP⟩
      refine ⟨none, _, rfl, rfl, fun _ h => ?_, forall_mem_none, hlimit, hP⟩
      cases h
      exact hlower
  | window start stop =>
    have hprevious : (∀ lower ∈ previousPosition start, lower < 2 ^ 63) ↔ start ≤ 2 ^ 63 := by
      cases start with
      | zero => exact iff_of_true forall_mem_none (Nat.zero_le _)
      | succ start =>
        refine ⟨fun h => h start rfl, fun h _ heq => ?_⟩
        cases heq
        exact h
    have hwindow : ¬(stop.any fun stop => stop ≤ start) = true ↔ ∀ stop' ∈ stop, start < stop' := by
      cases stop <;> simp
    constructor
    · rintro ⟨_, _, htarget, hbounds, hlower, hupper, hlimit, hP⟩
      change (if _ then _ else _) = Except.ok _ at hbounds
      split at hbounds
      · cases hbounds
      · rename_i hvalid
        cases hbounds
        exact ⟨⟨fun stop' h => ⟨hwindow.mp hvalid stop' h, hupper stop' h⟩,
          hprevious.mp hlower, hlimit⟩, hP⟩
    · rintro ⟨⟨hstop, hstart, hlimit⟩, hP⟩
      refine ⟨none, _, rfl, if_neg (hwindow.mpr fun stop' h => (hstop stop' h).1),
        hprevious.mpr hstart, fun stop' h => (hstop stop' h).2, hlimit, hP⟩
  | around messageId =>
    have htarget : t.aroundTarget (.around messageId) =
        (t.history[messageId]?.map fun entry => entry.snapshot.position).elim
          (.error (.message "UI history target was removed")) fun position =>
            .ok (some position) := by
      cases hentry : t.history[messageId]? with
      | none => simp only [aroundTarget, hfailure, hentry, Option.map_none,
          Option.elim_none]
      | some entry => simp only [aroundTarget, hfailure, hentry, Option.map_some,
          Option.elim_some]
    have hbounds : t.pageBounds (.around messageId) = ⟨none, none, true,
        some ((t.history[messageId]?.map fun entry => entry.snapshot.position).getD 0)⟩ := rfl
    change _ ↔ (t.history.contains messageId = true ∧ limit < 2 ^ 63) ∧ _
    rw [htarget, hbounds, contains_eq_isSome]
    cases t.history[messageId]? with
    | none =>
      constructor
      · rintro ⟨_, _, htarget, -⟩
        cases htarget
      · rintro ⟨⟨h, -⟩, -⟩
        cases h
    | some entry =>
      constructor
      · rintro ⟨_, _, htarget, hbounds, -, -, hlimit, hP⟩
        cases htarget
        cases hbounds
        exact ⟨⟨rfl, hlimit⟩, hP⟩
      · rintro ⟨⟨-, hlimit⟩, hP⟩
        exact ⟨_, _, rfl, rfl, forall_mem_none, forall_mem_none, hlimit, hP⟩

/-- **A page is returned** for the ranges and limits that are answered, by a session that has not
failed. -/
theorem page_ok_iff {range : UiHistoryRange} {page : UiHistoryPage} :
    t.page range limit = .ok page ↔
      t.state.failure = none ∧ 0 < limit ∧ Answers t limit range ∧
        page = assemblePage t.state (t.pageBounds range) limit
          (storedPage t.stored (t.pageBounds range) limit) := by
  unfold StoredSession.page
  rw [guard_eq_ok, bind_eq_ok]
  cases hfailure : t.state.failure with
  | some failure =>
    constructor
    · rintro ⟨-, target, -, h⟩
      cases h
    · rintro ⟨h, -⟩
      cases h
  | none =>
    have hrest : (∃ target, t.aroundTarget range = .ok target ∧
        (do
          let bounds ← range.bounds target
          bounds.columns
          limitColumn limit
          return assemblePage t.state bounds limit (storedPage t.stored bounds limit)) =
          Except.ok page) ↔
        ∃ target bounds, t.aroundTarget range = .ok target ∧ range.bounds target = .ok bounds ∧
          (∀ lower ∈ bounds.lower, lower < 2 ^ 63) ∧ (∀ upper ∈ bounds.upper, upper < 2 ^ 63) ∧
          limit < 2 ^ 63 ∧
          page = assemblePage t.state bounds limit (storedPage t.stored bounds limit) := by
      simp only [bind_eq_ok, columns_ok_iff, limitColumn_ok_iff]
      constructor
      · rintro ⟨target, htarget, bounds, hbounds, _, ⟨hlower, hupper⟩, _, hlimit, h⟩
        cases h
        exact ⟨target, bounds, htarget, hbounds, hlower, hupper, hlimit, rfl⟩
      · rintro ⟨target, bounds, htarget, hbounds, hlower, hupper, hlimit, rfl⟩
        exact ⟨target, htarget, bounds, hbounds, (), ⟨hlower, hupper⟩, (), hlimit, rfl⟩
    have hgoal : (∃ target bounds, t.aroundTarget range = .ok target ∧
        range.bounds target = .ok bounds ∧
        (∀ lower ∈ bounds.lower, lower < 2 ^ 63) ∧ (∀ upper ∈ bounds.upper, upper < 2 ^ 63) ∧
        limit < 2 ^ 63 ∧
        page = assemblePage t.state bounds limit (storedPage t.stored bounds limit)) ↔
        Answers t limit range ∧ page = assemblePage t.state (t.pageBounds range) limit
          (storedPage t.stored (t.pageBounds range) limit) :=
      bounds_ok_iff hfailure (fun bounds =>
        page = assemblePage t.state bounds limit (storedPage t.stored bounds limit))
    rw [hrest, hgoal, Nat.pos_iff_ne_zero]
    exact ⟨fun ⟨hlimit, h⟩ => ⟨rfl, hlimit, h⟩, fun ⟨_, hlimit, h⟩ => ⟨hlimit, h⟩⟩

theorem shown_eq_pageSnapshots (hs : Counted n t.stored t.state) (range : UiHistoryRange)
    (limit : ℕ) :
    shownSnapshots (t.pageBounds range) limit (mergeEntries
        (storedPage t.stored (t.pageBounds range) limit) (t.state.entries.toList.map Prod.snd)) =
      t.pageSnapshots limit range := by
  cases range with
  | latest =>
    refine (shown_between hs rfl limit).trans ?_
    change newestSnapshots limit (t.snapshots.filter (between none none)) = _
    have hall : between none none = fun _ => true := rfl
    rw [hall, filter_true]
    rfl
  | before position =>
    refine (shown_between hs rfl limit).trans ?_
    change newestSnapshots limit (t.snapshots.filter (between none (some position))) = _
    have hbefore : between none (some position) = fun x => decide (x.position < position) := by
      funext x
      unfold between
      simp
    rw [hbefore]
    rfl
  | after position =>
    refine (shown_between hs rfl limit).trans ?_
    change oldestSnapshots limit (t.snapshots.filter (between (some position) none)) = _
    have hafter : between (some position) none = fun x => decide (position < x.position) := by
      funext x
      unfold between
      simp
    rw [hafter]
    rfl
  | window start stop =>
    refine (shown_between hs rfl limit).trans ?_
    have hstart : ∀ x : UiSnapshot, (previousPosition start).all
        (fun lower => lower < x.position) = decide (start ≤ x.position) :=
      fun x => all_previousPosition start x.position
    cases stop with
    | none =>
      have hwindow : between (previousPosition start) none =
          fun x => decide (start ≤ x.position) := by
        funext x
        unfold between
        rw [hstart, Option.all_none, Bool.and_true]
      change newestSnapshots limit
        (t.snapshots.filter (between (previousPosition start) none)) = _
      rw [hwindow]
      rfl
    | some stop =>
      have hwindow : between (previousPosition start) (some stop) =
          fun x => decide (start ≤ x.position) && decide (x.position < stop) := by
        funext x
        unfold between
        rw [hstart, Option.all_some]
      change oldestSnapshots limit
        (t.snapshots.filter (between (previousPosition start) (some stop))) = _
      rw [hwindow]
      rfl
  | around messageId => exact shown_around hs _ limit

theorem increasing_pageSnapshots (hs : Counted n t.stored t.state) (range : UiHistoryRange)
    (limit : ℕ) :
    (t.pageSnapshots limit range).Pairwise fun a b => a.position < b.position := by
  have hnodup := nodup_snapshots hs
  have hsorted : ∀ part : List UiSnapshot, part.Sublist t.snapshots →
      (sortByKey (fun x : UiSnapshot => x.position) part).Pairwise
        fun a b => a.position < b.position :=
    fun part hpart => pairwise_lt_sortByKey _ (hnodup.sublist (hpart.map _))
  have hnewest : ∀ part : List UiSnapshot, part.Sublist t.snapshots →
      (newestSnapshots limit part).Pairwise fun a b => a.position < b.position :=
    fun part hpart => (hsorted part hpart).sublist (drop_sublist _ _)
  have holdest : ∀ part : List UiSnapshot, part.Sublist t.snapshots →
      (oldestSnapshots limit part).Pairwise fun a b => a.position < b.position :=
    fun part hpart => (hsorted part hpart).sublist (take_sublist _ _)
  cases range with
  | latest => exact hnewest _ (List.Sublist.refl _)
  | before position => exact hnewest _ filter_sublist
  | after position => exact holdest _ filter_sublist
  | window start stop =>
    cases stop with
    | none => exact hnewest _ filter_sublist
    | some stop => exact holdest _ filter_sublist
  | around messageId =>
    refine pairwise_lt_sortByKey _ (List.Nodup.sublist ((take_sublist _ _).map _) ?_)
    exact ((perm_sortByKey _ t.snapshots).map _).nodup_iff.mpr hnodup

theorem pageOf_assemblePage (hs : Counted n t.stored t.state) (range : UiHistoryRange)
    (limit : ℕ) :
    PageOf t range limit (assemblePage t.state (t.pageBounds range) limit
      (storedPage t.stored (t.pageBounds range) limit)) where
  history := shown_eq_pageSnapshots hs range limit
  increasing := by
    change (shownSnapshots _ _ _).Pairwise _
    rw [shown_eq_pageSnapshots hs range limit]
    exact increasing_pageSnapshots hs range limit
  lastPosition := rfl
  hasNewer := by
    change (Option.any _ _ = true) ↔ ∃ last ∈ Option.map UiSnapshot.position _, _
    generalize Option.map UiSnapshot.position _ = last
    cases last with
    | none => simp
    | some last =>
      have habove := hs.sound.exists_above_iff last
      rw [hs.next] at habove
      constructor
      · intro hnewer
        obtain ⟨id, position, hnumber, hlt⟩ := habove.mpr (of_decide_eq_true hnewer)
        obtain ⟨x, hx, rfl⟩ := (exists_snapshot_iff hs position).mpr ⟨id, hnumber⟩
        exact ⟨last, rfl, x, hx, hlt⟩
      · rintro ⟨_, hlast, x, hx, hlt⟩
        cases hlast
        obtain ⟨id, hnumber⟩ := (exists_snapshot_iff hs x.position).mp ⟨x, hx, rfl⟩
        exact decide_eq_true (habove.mp ⟨id, x.position, hnumber, hlt⟩)

end History

/-- **Pages are exact.**  In every settled state of a run whose calls find the messages that they
name, a page is returned if the session has not failed and the range and the limit are answered,
and it shows what it should. -/
theorem page_exact {parseUuid : String → Except String String} {generation : UiGeneration}
    {calls : List SessionCall} {s : StoredSession}
    (hrun : Run (FindingStep parseUuid) (.new generation) calls s) (hsettled : s.Settled)
    (range : UiHistoryRange) (limit : ℕ) :
    ((∃ page, s.page range limit = .ok page) ↔
        s.state.failure = none ∧ 0 < limit ∧ Answers s limit range) ∧
      ∀ page, s.page range limit = .ok page → PageOf s range limit page := by
  obtain ⟨n, hn⟩ := (upkept_run hrun).settled hsettled
  refine ⟨⟨?_, ?_⟩, fun page hpage => ?_⟩
  · rintro ⟨page, hpage⟩
    obtain ⟨hfailure, hlimit, hanswers, -⟩ := page_ok_iff.mp hpage
    exact ⟨hfailure, hlimit, hanswers⟩
  · rintro ⟨hfailure, hlimit, hanswers⟩
    exact ⟨_, page_ok_iff.mpr ⟨hfailure, hlimit, hanswers, rfl⟩⟩
  · obtain ⟨-, -, -, rfl⟩ := page_ok_iff.mp hpage
    exact pageOf_assemblePage hn.counted range limit

def failedRequest (runId raw : String) : UiProviderError where
  runId := runId
  segmentId := none
  createdAt := 0
  raw := raw
  details := .null
  retryAfterMs := none

theorem StoredStep.enters {parseUuid : String → Except String String} {s : StoredSession}
    {call : SessionCall} {α : Type} {x : Section α} (henters : Enters parseUuid s call x) :
    StoredStep parseUuid s call { s with state := x.stateAfter s.state } := by
  unfold CriticalSection.stateAfter
  cases hresult : x s.state with
  | ok a state => exact .accept henters hresult
  | error e state => exact .refuse henters hresult

/-- A text that is shown beside a message. -/
def noted : UiPresentation := { UiPresentation.default with document := some (.text "note") }

/-- The revision of the copy of a message, if there is one. -/
def revisionOf (entries : EntryMap) (id : UiMessageId) : Option ℕ :=
  entries[id]?.map fun entry => entry.snapshot.revision

/-- Of three messages, the first has a newer copy in memory, the second is in the table only and the
third in memory only. -/
theorem page_exact_recorded : ∃ calls s, Run (FindingStep (fun s => .ok s)) (.new "g") calls s ∧
    s.Settled ∧ (revisionOf s.stored "a" = some 1 ∧ revisionOf s.state.entries "a" = some 3) ∧
      (revisionOf s.stored "b" = some 2 ∧ revisionOf s.state.entries "b" = none) ∧
      (revisionOf s.stored "c" = none ∧ revisionOf s.state.entries "c" = some 4) ∧
      ∀ limit, 0 < limit → limit < 2 ^ 63 →
        ∃ page, s.page .latest limit = .ok page ∧ PageOf s .latest limit page := by
  have hrun : ∃ calls s, Run (FindingStep (fun s => .ok s)) (.new "g") calls s ∧ s.Settled ∧
      s.state.failure = none ∧
      (revisionOf s.stored "a" = some 1 ∧ revisionOf s.state.entries "a" = some 3) ∧
      (revisionOf s.stored "b" = some 2 ∧ revisionOf s.state.entries "b" = none) ∧
      (revisionOf s.stored "c" = none ∧ revisionOf s.state.entries "c" = some 4) := by
    refine ⟨_, _,
      .cons ⟨.accept (.beginRun ⟨"run", "model", "provider", none⟩) rfl, trivial⟩ <|
      .cons ⟨.accept (.recordError (failedRequest "run" "e") none "a") rfl,
        ⟨rfl, rfl, by decide, by decide, by decide⟩⟩ <|
      .cons ⟨.accept (.recordError (failedRequest "other" "e") none "b") rfl,
        ⟨rfl, rfl, by decide, by decide, by decide⟩⟩ <|
      .cons ⟨.beginFlush rfl (by decide), trivial⟩ <|
      .cons ⟨.storeFlush rfl rfl rfl, trivial⟩ <|
      .cons ⟨.endFlush rfl rfl, trivial⟩ <|
      .cons ⟨.enters (.mutatePresentation "g" "run" "a" fun _ => noted), trivial⟩ <|
      .cons ⟨.enters (.recordError (failedRequest "other" "e") none "c"), ?_⟩ <| .nil _,
      ?_, ?_, ?_, ?_, ?_⟩
    · unfold Finds
      decide +kernel
    · unfold StoredSession.Settled
      decide +kernel
    · decide +kernel
    · decide +kernel
    · decide +kernel
    · decide +kernel
  obtain ⟨calls, s, hrun, hsettled, hfailure, hcopies⟩ := hrun
  refine ⟨calls, s, hrun, hsettled, hcopies.1, hcopies.2.1, hcopies.2.2,
    fun limit hpos hlt => ?_⟩
  obtain ⟨hiff, hexact⟩ := page_exact hrun hsettled .latest limit
  obtain ⟨page, hpage⟩ := hiff.mpr ⟨hfailure, hpos, hlt⟩
  exact ⟨page, hpage, hexact page hpage⟩

theorem empty_window_refused : ¬∀ (parseUuid : String → Except String String)
    (generation : UiGeneration) (calls : List SessionCall) (s : StoredSession)
    (range : UiHistoryRange) (limit : ℕ), Run (StoredStep parseUuid) (.new generation) calls s →
    1 ≤ limit → ∃ page, s.page range limit = .ok page ∧ PageOf s range limit page := by
  intro h
  obtain ⟨page, hpage, -⟩ := h (fun s => .ok s) "g" [] _ (.window 1 (some 1)) 1 (.nil _) le_rfl
  cases hpage

/-! What happens in the states that are left out. -/

/-- Between the rows of a truncation and its state, a page still counts what was deleted. -/
theorem deleted_rows_are_newer : ∃ calls s, Run (FindingStep (fun s => .ok s)) (.new "g") calls s ∧
    ∃ page, s.page .latest 1 = .ok page ∧ ¬PageOf s .latest 1 page := by
  have hrun : ∃ calls s, Run (FindingStep (fun s => .ok s)) (.new "g") calls s ∧
      ∃ page, s.page .latest 1 = .ok page ∧ page.hasNewer = true ∧ page.lastPosition = some 0 ∧
        (s.snapshots.all fun snapshot => snapshot.position = 0) = true := by
    have htruncate : ∀ s : StoredSession, s.writer = .idle →
        FindingStep (fun s => .ok s) s .other
          { s with writer := .truncating 0 s.state.generation (s.state.revision + 1) } :=
      fun s hidle => ⟨.beginTruncation hidle, trivial⟩
    refine ⟨_, _,
      .cons ⟨.accept (.beginRun ⟨"run", "model", "provider", none⟩) rfl, trivial⟩ <|
      .cons ⟨.accept (.recordError (failedRequest "run" "e") none "a") rfl,
        ⟨rfl, rfl, by decide, by decide, by decide⟩⟩ <|
      .cons ⟨.accept (.recordError (failedRequest "other" "e") none "b") rfl,
        ⟨rfl, rfl, by decide, by decide, by decide⟩⟩ <|
      .cons ⟨.beginFlush rfl (by decide), trivial⟩ <|
      .cons ⟨.storeFlush rfl rfl rfl, trivial⟩ <|
      .cons ⟨.endFlush rfl rfl, trivial⟩ <|
      .cons (htruncate _ rfl) <|
      .cons ⟨.storeTruncation rfl rfl (by decide : "h" ∉ _), trivial⟩ (.nil _), _, rfl, ?_, ?_, ?_⟩
    · decide +kernel
    · decide +kernel
    · decide +kernel
  obtain ⟨calls, s, hrun, page, hpage, hnewer, hlast, hzero⟩ := hrun
  refine ⟨calls, s, hrun, page, hpage, fun hpageOf => ?_⟩
  obtain ⟨last, hmem, x, hx, hlt⟩ := hpageOf.hasNewer.mp hnewer
  rw [hlast] at hmem
  cases hmem
  have hposition := of_decide_eq_true (all_eq_true.mp hzero x hx)
  omega

/-- A batch that closes a segment. -/
def closedBatch : List (UiMessageId × UiRecord) :=
  [(.segment "segment", .ofMessage (.providerSegmentClose "segment" .completed none none none))]

/-- The batch when nothing was loaded for it. -/
abbrev staleBatch : Section (List UiAppendReceipt) := UiState.stageBatch "g" ∅ closedBatch

def StoredSession.afterStaleBatch (s : StoredSession) : StoredSession :=
  { s with state := staleBatch.stateAfter s.state }

theorem enters_staleBatch (s : StoredSession) :
    Enters (fun s => .ok s) s (.stage "g" ∅ closedBatch) staleBatch := by
  refine .stage _ _ _ fun id entry h => ?_
  rw [Std.ExtTreeMap.getElem?_empty] at h
  cases h

/-- A message that is stored again under a second position hides the row behind it from a page. -/
theorem stale_batch_hides_row : ∃ calls s, Run (StoredStep (fun s => .ok s)) (.new "g") calls s ∧
    s.Settled ∧ ∃ page, s.page (.window 0 (some 2)) 1 = .ok page ∧
      ¬PageOf s (.window 0 (some 2)) 1 page := by
  have hrun : ∃ calls s, Run (StoredStep (fun s => .ok s)) (.new "g") calls s ∧
      s.row.generation = s.afterStaleBatch.state.generation ∧
      (s.afterStaleBatch.snapshots.any fun snapshot => snapshot.position = 1) = true ∧
      ((s.afterStaleBatch.page (.window 0 (some 2)) 1).toOption.any fun page =>
        page.history.isEmpty) = true := by
    refine ⟨_, _,
      .cons (.accept (enters_staleBatch _) rfl) <|
      .cons (.accept (.recordError (failedRequest "run" "e") none "a") rfl) <|
      .cons (.accept (.bind ⟨.segment "segment", true, true, "g", 1⟩ 0) rfl) <|
      .cons (.beginFlush rfl ?_) <|
      .cons (.storeFlush rfl rfl rfl) <|
      .cons (.endFlush rfl rfl) <| .nil _, ?_, ?_, ?_⟩
    · decide +kernel
    · decide +kernel
    · decide +kernel
    · decide +kernel
  obtain ⟨calls, s, hrun, hgeneration, hbehind, hempty⟩ := hrun
  cases hpage : s.afterStaleBatch.page (.window 0 (some 2)) 1 with
  | error e =>
    rw [hpage] at hempty
    cases hempty
  | ok page =>
    rw [hpage] at hempty
    refine ⟨_, s.afterStaleBatch,
      hrun.append (.cons (.enters (enters_staleBatch s)) (.nil _)),
      hgeneration, page, hpage, fun hpageOf => ?_⟩
    obtain ⟨x, hx, hposition⟩ := any_eq_true.mp hbehind
    -- the window holds the row, so that its first snapshot exists
    have hhistory := hpageOf.history
    rw [isEmpty_iff.mp hempty] at hhistory
    have hordered := (take_eq_nil_iff.mp hhistory.symm).resolve_left Nat.one_ne_zero
    have hmem : x ∈ sortByKey (fun snapshot : UiSnapshot => snapshot.position)
        (s.afterStaleBatch.snapshots.filter fun snapshot =>
          0 ≤ snapshot.position && snapshot.position < 2) := by
      rw [(perm_sortByKey _ _).mem_iff, mem_filter]
      refine ⟨hx, ?_⟩
      rw [of_decide_eq_true hposition]
      rfl
    rw [hordered] at hmem
    exact absurd hmem not_mem_nil

end Chelix.Sessions
