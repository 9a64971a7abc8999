import Chelix.Common.ProviderOutput

/-!
# What a provider segment is made of

The materializer applies updates in the order in which they arrive, and the updates of
different items interleave.
-/

namespace Chelix.Common

open Chelix.Library List ProviderOutputItem ProviderSegmentMaterializer ProviderItemUpdate

/-- Identity and position of an item: what no update of an item changes. -/
def ProviderOutputItem.key (item : ProviderOutputItem) : ProviderItemId × ProviderItemPosition :=
  (item.id, item.position)

/-- Identity and position that an update addresses. -/
def ProviderItemUpdate.key (update : ProviderItemUpdate) : ProviderItemId × ProviderItemPosition :=
  (update.itemId, update.position)

/-! ## One item -/

theorem applyPayloadToItem_key {item changed : ProviderOutputItem}
    {payload : ProviderItemUpdatePayload} (h : applyPayloadToItem item payload = .ok changed) :
    changed.key = item.key := by
  unfold applyPayloadToItem at h
  split at h <;> cases h <;> rfl

/-- What an update makes of the items under its key. -/
def viewStep (view : List ProviderOutputItem) (update : ProviderItemUpdate) :
    List ProviderOutputItem :=
  match view with
  | [] => [createItemFromUpdate update]
  | item :: rest =>
    match applyPayloadToItem item update.payload with
    | .ok changed => changed :: rest
    | .error _ => item :: rest

/-! ## One accepted update -/

section Items

variable {items items' : List ProviderOutputItem} {update : ProviderItemUpdate}

/-- **The two ways an update is accepted**: it changes the item that has its identity and its
position, or it adds an item whose identity and position are both new. -/
theorem applyToItems_cases (h : applyToItems items update = .ok items') :
    (∃ existing changed,
        items.find? (fun item => item.id = update.itemId) = some existing ∧
        existing.key = update.key ∧
        applyPayloadToItem existing update.payload = .ok changed ∧
        items' = modifyFirst (fun item => item.id = update.itemId) (fun _ => changed) items) ∨
    ((∀ item ∈ items, item.id ≠ update.itemId) ∧
        (∀ item ∈ items, item.position ≠ update.position) ∧
        items' = sortByKey ProviderOutputItem.position (items ++ [createItemFromUpdate update])) := by
  unfold applyToItems at h
  cases hid : items.find? fun item => item.id = update.itemId with
  | some existing =>
    left
    simp only [hid] at h
    have hsame : existing.id = update.itemId := by simpa using List.find?_some hid
    by_cases hpos : existing.position = update.position
    · rw [if_neg (not_not.mpr hpos)] at h
      cases happ : applyPayloadToItem existing update.payload with
      | error e =>
        rw [happ] at h
        cases h
      | ok changed =>
        rw [happ] at h
        exact ⟨existing, changed, rfl, Prod.ext hsame hpos, happ, (Except.ok.inj h).symm⟩
    · rw [if_pos hpos] at h
      cases h
  | none =>
    right
    simp only [hid] at h
    cases hpos : items.find? fun item => item.position = update.position with
    | some existing =>
      rw [hpos] at h
      cases h
    | none =>
      rw [hpos] at h
      rw [List.find?_eq_none] at hid hpos
      refine ⟨fun item hitem => ?_, fun item hitem => ?_, (Except.ok.inj h).symm⟩
      · simpa using hid item hitem
      · simpa using hpos item hitem

theorem part_key_sortByKey (k : ProviderItemId × ProviderItemPosition)
    (items : List ProviderOutputItem) :
    part ProviderOutputItem.key k (sortByKey ProviderOutputItem.position items) =
      part ProviderOutputItem.key k items := by
  refine filter_sortByKey _ fun a _ b _ ha hb => ?_
  have hab : a.key = b.key := (of_decide_eq_true ha).trans (of_decide_eq_true hb).symm
  exact congrArg Prod.snd hab

theorem part_position_sortByKey (p : ProviderItemPosition) (items : List ProviderOutputItem) :
    part ProviderOutputItem.position p (sortByKey ProviderOutputItem.position items) =
      part ProviderOutputItem.position p items := by
  refine filter_sortByKey _ fun a _ b _ ha hb => ?_
  exact (of_decide_eq_true ha).trans (of_decide_eq_true hb).symm

/-- An accepted update acts on the items under its own key, and only there. -/
theorem part_key_applyToItems (h : applyToItems items update = .ok items')
    (k : ProviderItemId × ProviderItemPosition) :
    part ProviderOutputItem.key k items' =
      if update.key = k then viewStep (part ProviderOutputItem.key k items) update
      else part ProviderOutputItem.key k items := by
  rcases applyToItems_cases h with
    ⟨existing, changed, hfind, hkey, happ, rfl⟩ | ⟨hid, -, rfl⟩
  · have hkeep : changed.key = existing.key := applyPayloadToItem_key happ
    by_cases hk : update.key = k
    · subst hk
      have hlabel : ∀ a : ProviderOutputItem, a.key = existing.key →
          decide (a.id = update.itemId) = true := by
        intro a ha
        rw [hkey] at ha
        exact decide_eq_true (congrArg Prod.fst ha)
      -- the first item under the key is the one that the update found
      obtain ⟨rest, hpart⟩ := part_eq_cons_of_find? hlabel hfind
      rw [if_pos rfl, ← hkey, part_modifyFirst_of_find? hkeep hlabel hfind, hpart]
      simp only [modifyHead_cons, viewStep, happ]
    · rw [if_neg hk]
      refine part_modifyFirst_of_ne fun x hx => ?_
      rw [hfind] at hx
      obtain rfl := Option.some.inj hx
      rw [hkeep, hkey]
      exact ⟨hk, hk⟩
  · rw [part_key_sortByKey, part_append]
    by_cases hk : update.key = k
    · subst hk
      have hempty : part ProviderOutputItem.key update.key items = [] :=
        (part_eq_nil_iff _).mpr fun item hitem hkey => hid item hitem (congrArg Prod.fst hkey)
      rw [if_pos rfl, hempty]
      exact part_cons_self ProviderOutputItem.key (createItemFromUpdate update) []
    · rw [if_neg hk, part_cons_of_ne _ (show (createItemFromUpdate update).key ≠ k from hk)]
      simp

/-! ## The order of the items -/

/-- **Positions that are taken keep their items' keys; others get at most one item.**  The
relation of a list of items to the list a run started from. -/
def KeepsSlots (items₀ items : List ProviderOutputItem) : Prop :=
  ∀ p,
    (part ProviderOutputItem.position p items).map ProviderOutputItem.key =
        (part ProviderOutputItem.position p items₀).map ProviderOutputItem.key ∨
      (part ProviderOutputItem.position p items₀ = [] ∧
        (part ProviderOutputItem.position p items).length ≤ 1)

/-- The list is in the order of its positions. -/
def Sorted (items : List ProviderOutputItem) : Prop :=
  items.Pairwise fun a b => a.position ≤ b.position

theorem sorted_iff {items : List ProviderOutputItem} :
    Sorted items ↔
      (items.map ProviderOutputItem.key).Pairwise fun a b => a.2 ≤ b.2 := by
  rw [pairwise_map]
  rfl

theorem part_position_map_key
    (h : items'.map ProviderOutputItem.key = items.map ProviderOutputItem.key)
    (p : ProviderItemPosition) :
    (part ProviderOutputItem.position p items').map ProviderOutputItem.key =
      (part ProviderOutputItem.position p items).map ProviderOutputItem.key := by
  have hpart : ∀ l : List ProviderOutputItem,
      (part ProviderOutputItem.position p l).map ProviderOutputItem.key =
        (l.map ProviderOutputItem.key).filter fun k => decide (k.2 = p) := by
    intro l
    rw [filter_map]
    rfl
  rw [hpart, hpart, h]

theorem applyToItems_map_key_of_found (h : applyToItems items update = .ok items')
    (hid : ∃ item ∈ items, item.id = update.itemId) :
    items'.map ProviderOutputItem.key = items.map ProviderOutputItem.key := by
  rcases applyToItems_cases h with
    ⟨existing, changed, hfind, hkey, happ, rfl⟩ | ⟨hnone, -, rfl⟩
  · refine map_modifyFirst fun x hx => ?_
    rw [hfind] at hx
    obtain rfl := Option.some.inj hx
    exact applyPayloadToItem_key happ
  · obtain ⟨item, hitem, hsame⟩ := hid
    exact absurd hsame (hnone item hitem)

theorem keepsSlots_applyToItems {items₀ items items' : List ProviderOutputItem}
    (h : applyToItems items update = .ok items')
    (hkeep : KeepsSlots items₀ items) : KeepsSlots items₀ items' := by
  intro p
  by_cases hid : ∃ item ∈ items, item.id = update.itemId
  · have hmap := part_position_map_key (applyToItems_map_key_of_found h hid) p
    have hlen := congrArg List.length hmap
    rw [length_map, length_map] at hlen
    rcases hkeep p with hsame | ⟨hempty, hone⟩
    · exact Or.inl (hmap.trans hsame)
    · exact Or.inr ⟨hempty, hlen ▸ hone⟩
  · rcases applyToItems_cases h with
      ⟨existing, changed, hfind, hkey, -, -⟩ | ⟨-, hpos, rfl⟩
    · exact absurd ⟨existing, mem_of_find?_eq_some hfind, congrArg Prod.fst hkey⟩ hid
    · rw [part_position_sortByKey, part_append]
      by_cases hp : update.position = p
      · subst hp
        have hempty : part ProviderOutputItem.position update.position items = [] :=
          (part_eq_nil_iff _).mpr hpos
        have hnew : part ProviderOutputItem.position update.position
            [createItemFromUpdate update] = [createItemFromUpdate update] :=
          part_cons_self ProviderOutputItem.position (createItemFromUpdate update) []
        rw [hempty, hnew]
        right
        rcases hkeep update.position with hsame | ⟨hempty₀, -⟩
        · rw [hempty, map_nil] at hsame
          exact ⟨map_eq_nil_iff.mp hsame.symm, le_rfl⟩
        · exact ⟨hempty₀, le_rfl⟩
      · rw [part_cons_of_ne _ (show (createItemFromUpdate update).position ≠ p from hp),
          part_nil, append_nil]
        exact hkeep p

/-! ## An accepted run of updates -/

/-- The update is accepted and leaves the materializer `m'`. -/
def Accepts (m : ProviderSegmentMaterializer) (update : ProviderItemUpdate)
    (m' : ProviderSegmentMaterializer) : Prop :=
  m.applyUpdate update = (.ok (), m')

/-- What an accepted update does to each part of the materializer. -/
structure AcceptedStep (m : ProviderSegmentMaterializer) (update : ProviderItemUpdate)
    (m' : ProviderSegmentMaterializer) : Prop where
  outcome : m'.segment.outcome = m.segment.outcome
  segmentId : m'.segment.segmentId = some update.segmentId
  segmentId_of_some : m.segment.segmentId ≠ none → m.segment.segmentId = some update.segmentId
  lastUpdateSeq : m'.lastUpdateSeq = m.lastUpdateSeq.insert update.itemId update.updateSeq
  items : applyToItems m.segment.items update = .ok m'.segment.items

theorem announce_items (m : ProviderSegmentMaterializer) (update : ProviderItemUpdate) :
    (m.announce update).segment.items = m.segment.items := by
  unfold announce
  cases m.segment.segmentId <;> rfl

theorem recordSequence_items (m : ProviderSegmentMaterializer) (update : ProviderItemUpdate) :
    (m.recordSequence update).segment.items = m.segment.items := rfl

theorem acceptedStep_of_accepts {m m' : ProviderSegmentMaterializer}
    (h : Accepts m update m') : AcceptedStep m update m' := by
  unfold Accepts applyUpdate at h
  cases hseg : m.checkSegment update with
  | error e => simp [hseg] at h
  | ok =>
    simp only [hseg] at h
    cases hseq : (m.announce update).checkSequence update with
    | error e => simp [hseq] at h
    | ok =>
      simp only [hseq] at h
      rw [recordSequence_items, announce_items] at h
      cases happ : applyToItems m.segment.items update with
      | error e => simp [happ] at h
      | ok items =>
        simp only [happ, Prod.mk.injEq, true_and] at h
        subst h
        unfold checkSegment at hseg
        split at hseg
        · cases hseg
        · cases hid : m.segment.segmentId with
          | none =>
            refine ⟨?_, ?_, fun hne => absurd hid hne, ?_, happ⟩ <;>
              simp [setItems,
                recordSequence,
                announce, hid]
          | some segmentId =>
            simp only [hid] at hseg
            split at hseg
            · cases hseg
            · rename_i hne
              have hsame : segmentId = update.segmentId := not_not.mp hne
              refine ⟨?_, ?_, fun _ => hsame ▸ hid, ?_, happ⟩ <;>
                simp [setItems,
                  recordSequence,
                  announce, hid, hsame]

section AcceptedRun

variable {m m' : ProviderSegmentMaterializer} {updates : List ProviderItemUpdate}

theorem outcome_of_run (hrun : Run Accepts m updates m') :
    m'.segment.outcome = m.segment.outcome :=
  hrun.invariant (P := fun s => s.segment.outcome = m.segment.outcome)
    (fun _ _ _ hs h => (acceptedStep_of_accepts h).outcome.trans hs) rfl

theorem segmentId_of_run (hrun : Run Accepts m updates m') :
    (updates = [] → m'.segment.segmentId = m.segment.segmentId) ∧
      ∀ update ∈ updates, m'.segment.segmentId = some update.segmentId := by
  induction hrun with
  | nil => exact ⟨fun _ => rfl, fun _ h => (not_mem_nil h).elim⟩
  | @cons m t m' update rest hstep hrest ih =>
    have hs := acceptedStep_of_accepts hstep
    have hlast : m'.segment.segmentId = some update.segmentId := by
      cases rest with
      | nil => rw [ih.1 rfl, hs.segmentId]
      | cons next rest' =>
        obtain ⟨t', hnext, -⟩ := Run.cons_iff.mp hrest
        have hid := (acceptedStep_of_accepts hnext).segmentId_of_some
        rw [hs.segmentId] at hid
        rw [ih.2 next (mem_cons_self ..), hid (Option.some_ne_none _)]
    refine ⟨fun h => (cons_ne_nil _ _ h).elim, fun u hu => ?_⟩
    rcases mem_cons.mp hu with rfl | hu
    · exact hlast
    · exact ih.2 u hu

theorem lastUpdateSeq_of_run (hrun : Run Accepts m updates m') (id : ProviderItemId) :
    m'.lastUpdateSeq[id]? =
      (part itemId id updates).foldl (fun _ update => some update.updateSeq)
        m.lastUpdateSeq[id]? := by
  refine hrun.part_foldl itemId (fun m => m.lastUpdateSeq[id]?) ?_ ?_
  · intro s update t h hid
    simp [(acceptedStep_of_accepts h).lastUpdateSeq, hid]
  · intro s update t h hid
    simp [(acceptedStep_of_accepts h).lastUpdateSeq, Std.ExtTreeMap.getElem?_insert, hid]

theorem part_key_of_run (hrun : Run Accepts m updates m')
    (k : ProviderItemId × ProviderItemPosition) :
    part ProviderOutputItem.key k m'.segment.items =
      (part ProviderItemUpdate.key k updates).foldl viewStep
        (part ProviderOutputItem.key k m.segment.items) := by
  refine hrun.part_foldl ProviderItemUpdate.key
    (fun m => part ProviderOutputItem.key k m.segment.items) ?_ ?_
  · intro s update t h hk
    have hpart := part_key_applyToItems (acceptedStep_of_accepts h).items k
    rwa [if_pos hk] at hpart
  · intro s update t h hk
    have hpart := part_key_applyToItems (acceptedStep_of_accepts h).items k
    rwa [if_neg hk] at hpart

theorem keepsSlots_of_run (hrun : Run Accepts m updates m') :
    KeepsSlots m.segment.items m'.segment.items :=
  hrun.invariant (P := fun s => KeepsSlots m.segment.items s.segment.items)
    (fun _ _ _ hs h => keepsSlots_applyToItems (acceptedStep_of_accepts h).items hs)
    fun _ => Or.inl rfl

/-- A run that meets no new identity keeps the keys of the items; any other leaves them in the
order of their positions. -/
theorem order_of_run (hrun : Run Accepts m updates m') :
    ((∀ update ∈ updates, ∃ item ∈ m.segment.items, item.id = update.itemId) ∧
        m'.segment.items.map ProviderOutputItem.key =
          m.segment.items.map ProviderOutputItem.key) ∨
      ((∃ update ∈ updates, ∀ item ∈ m.segment.items, item.id ≠ update.itemId) ∧
        Sorted m'.segment.items) := by
  induction hrun with
  | nil => exact Or.inl ⟨fun _ h => (not_mem_nil h).elim, rfl⟩
  | @cons m t m' update rest hstep _ ih =>
    have happ := (acceptedStep_of_accepts hstep).items
    by_cases hid : ∃ item ∈ m.segment.items, item.id = update.itemId
    · have hmap := applyToItems_map_key_of_found happ hid
      have hids : ∀ id, (∃ item ∈ t.segment.items, item.id = id) ↔
          ∃ item ∈ m.segment.items, item.id = id := by
        intro id
        have h : id ∈ (t.segment.items.map ProviderOutputItem.key).map Prod.fst ↔
            id ∈ (m.segment.items.map ProviderOutputItem.key).map Prod.fst := by rw [hmap]
        simpa [ProviderOutputItem.key] using h
      rcases ih with ⟨hknown, hkeys⟩ | ⟨⟨new, hnew, hfresh⟩, hsorted⟩
      · refine Or.inl ⟨fun u hu => ?_, hkeys.trans hmap⟩
        rcases mem_cons.mp hu with rfl | hu
        · exact hid
        · exact (hids _).mp (hknown u hu)
      · refine Or.inr ⟨⟨new, mem_cons_of_mem _ hnew, fun item hitem hsame => ?_⟩, hsorted⟩
        obtain ⟨item', hitem', hsame'⟩ := (hids new.itemId).mpr ⟨item, hitem, hsame⟩
        exact hfresh item' hitem' hsame'
    · right
      push Not at hid
      refine ⟨⟨update, mem_cons_self .., hid⟩, ?_⟩
      rcases ih with ⟨-, hkeys⟩ | ⟨-, hsorted⟩
      · rw [sorted_iff, hkeys, ← sorted_iff]
        rcases applyToItems_cases happ with ⟨existing, -, hfind, hkey, -⟩ | ⟨-, -, hitems⟩
        · exact absurd (congrArg Prod.fst hkey) (hid existing (mem_of_find?_eq_some hfind))
        · rw [hitems]
          exact pairwise_sortByKey _ _
      · exact hsorted

end AcceptedRun

theorem items_eq_of_runs {m m₁ m₂ : ProviderSegmentMaterializer}
    {us vs : List ProviderItemUpdate} (hus : Run Accepts m us m₁) (hvs : Run Accepts m vs m₂)
    (hsame : ∀ id, part ProviderItemUpdate.itemId id us = part ProviderItemUpdate.itemId id vs) :
    m₁.segment.items = m₂.segment.items := by
  have hkeys : ∀ k, part ProviderItemUpdate.key k us = part ProviderItemUpdate.key k vs := by
    intro k
    have h : ∀ l : List ProviderItemUpdate, part ProviderItemUpdate.key k
        (part ProviderItemUpdate.itemId k.1 l) = part ProviderItemUpdate.key k l := by
      intro l
      rw [part_part ProviderItemUpdate.key ProviderItemUpdate.itemId Prod.fst fun _ => rfl, if_pos rfl]
    rw [← h us, hsame, h vs]
  have hparts : ∀ k, part ProviderOutputItem.key k m₁.segment.items =
      part ProviderOutputItem.key k m₂.segment.items := by
    intro k
    rw [part_key_of_run hus, part_key_of_run hvs, hkeys]
  have hmem : ∀ u, u ∈ us ↔ u ∈ vs := by
    intro u
    have h := congrArg (u ∈ ·) (hsame u.itemId)
    simpa using h
  rcases order_of_run hus with ⟨hknown, hmap₁⟩ | ⟨⟨new, hnew, hfresh⟩, hsorted₁⟩
  · rcases order_of_run hvs with ⟨-, hmap₂⟩ | ⟨⟨new, hnew, hfresh⟩, -⟩
    · exact eq_of_map_eq_of_part_eq _ (hmap₁.trans hmap₂.symm) hparts
    · obtain ⟨item, hitem, hid⟩ := hknown new ((hmem new).mpr hnew)
      exact absurd hid (hfresh item hitem)
  · rcases order_of_run hvs with ⟨hknown, -⟩ | ⟨-, hsorted₂⟩
    · obtain ⟨item, hitem, hid⟩ := hknown new ((hmem new).mp hnew)
      exact absurd hid (hfresh item hitem)
    · -- both lists are sorted: compare them position by position
      refine eq_of_pairwise_of_part_eq hsorted₁ hsorted₂ fun p => ?_
      have hslot : ∀ k, part ProviderOutputItem.key k
            (part ProviderOutputItem.position p m₁.segment.items) =
          part ProviderOutputItem.key k
            (part ProviderOutputItem.position p m₂.segment.items) := by
        intro k
        rw [part_part ProviderOutputItem.key ProviderOutputItem.position Prod.snd fun _ => rfl,
          part_part ProviderOutputItem.key ProviderOutputItem.position Prod.snd fun _ => rfl,
          hparts]
      rcases keepsSlots_of_run hus p with hslot₁ | ⟨hempty, hone₁⟩ <;>
        rcases keepsSlots_of_run hvs p with hslot₂ | ⟨hempty', hone₂⟩
      · exact eq_of_map_eq_of_part_eq _ (hslot₁.trans hslot₂.symm) hslot
      · rw [hempty', map_nil, map_eq_nil_iff] at hslot₁
        exact eq_of_length_le_one_of_part_eq _ (by rw [hslot₁]; exact Nat.zero_le 1) hone₂ hslot
      · rw [hempty, map_nil, map_eq_nil_iff] at hslot₂
        exact eq_of_length_le_one_of_part_eq _ hone₁ (by rw [hslot₂]; exact Nat.zero_le 1) hslot
      · exact eq_of_length_le_one_of_part_eq _ hone₁ hone₂ hslot

/-! ## Reachable materializers -/

/-- Distinct identities and increasing positions. -/
structure Ordered (items : List ProviderOutputItem) : Prop where
  ids : (items.map ProviderOutputItem.id).Nodup
  positions : items.Pairwise fun a b => a.position < b.position

theorem ordered_nil : Ordered [] where
  ids := nodup_nil
  positions := List.Pairwise.nil

theorem ordered_congr (h : items'.map ProviderOutputItem.key = items.map ProviderOutputItem.key)
    (hordered : Ordered items) : Ordered items' := by
  constructor
  · have hids : items'.map ProviderOutputItem.id = items.map ProviderOutputItem.id := by
      simpa [ProviderOutputItem.key, Function.comp_def] using congrArg (List.map Prod.fst) h
    rw [hids]
    exact hordered.ids
  · have hpos : items'.map ProviderOutputItem.position = items.map ProviderOutputItem.position := by
      simpa [ProviderOutputItem.key, Function.comp_def] using congrArg (List.map Prod.snd) h
    have hordered' := hordered.positions
    rw [← pairwise_map (f := ProviderOutputItem.position) (R := (· < ·))] at hordered' ⊢
    rwa [hpos]

theorem ordered_insert {items : List ProviderOutputItem} {item : ProviderOutputItem}
    (hid : ∀ a ∈ items, a.id ≠ item.id) (hpos : ∀ a ∈ items, a.position ≠ item.position)
    (hordered : Ordered items) :
    Ordered (sortByKey ProviderOutputItem.position (items ++ [item])) := by
  have hperm := perm_sortByKey ProviderOutputItem.position (items ++ [item])
  constructor
  · rw [(hperm.map ProviderOutputItem.id).nodup_iff, map_append, map_singleton]
    refine nodup_append.mpr ⟨hordered.ids, nodup_singleton _, ?_⟩
    intro a ha b hb
    obtain ⟨c, hc, rfl⟩ := mem_map.mp ha
    rw [mem_singleton.mp hb]
    exact hid c hc
  · have hne : (items ++ [item]).Pairwise fun a b => a.position ≠ b.position := by
      refine pairwise_append.mpr ⟨hordered.positions.imp fun h => h.ne,
        pairwise_singleton _ _, fun a ha b hb => ?_⟩
      rw [mem_singleton.mp hb]
      exact hpos a ha
    have hne' := (hperm.pairwise_iff fun h => h.symm).mpr hne
    have hle := pairwise_sortByKey ProviderOutputItem.position (items ++ [item])
    exact (hle.and hne').imp fun h => lt_of_le_of_ne h.1 h.2

theorem ordered_applyToItems (h : applyToItems items update = .ok items')
    (hordered : Ordered items) : Ordered items' := by
  by_cases hid : ∃ item ∈ items, item.id = update.itemId
  · exact ordered_congr (applyToItems_map_key_of_found h hid) hordered
  · rcases applyToItems_cases h with
      ⟨existing, -, hfind, hkey, -⟩ | ⟨hid, hpos, rfl⟩
    · exact absurd ⟨existing, mem_of_find?_eq_some hfind, congrArg Prod.fst hkey⟩ hid
    · exact ordered_insert hid hpos hordered

/-- What one call leaves of a materializer's items: an accepted update changes them, any other
call does not. -/
theorem items_applyUpdate (m : ProviderSegmentMaterializer) (update : ProviderItemUpdate) :
    (m.applyUpdate update).1 = .ok () ∧
        applyToItems m.segment.items update = .ok (m.applyUpdate update).2.segment.items ∨
      (∃ e, (m.applyUpdate update).1 = .error e) ∧
        (m.applyUpdate update).2.segment.items = m.segment.items := by
  cases hres : (m.applyUpdate update).1 with
  | ok =>
    left
    exact ⟨rfl, (acceptedStep_of_accepts (Prod.ext hres rfl)).items⟩
  | error e =>
    right
    refine ⟨⟨e, rfl⟩, ?_⟩
    revert hres
    unfold applyUpdate
    cases hseg : m.checkSegment update with
    | error e => exact fun _ => rfl
    | ok =>
      simp only
      cases hseq : (m.announce update).checkSequence update with
      | error e => exact fun _ => announce_items m update
      | ok =>
        simp only
        rw [recordSequence_items, announce_items]
        cases happ : applyToItems m.segment.items update with
        | error e => exact fun _ => announce_items m update
        | ok items =>
          intro h
          cases h

theorem items_close (m : ProviderSegmentMaterializer) (outcome : ProviderSegmentOutcome) :
    (m.close outcome).2.segment.items = m.segment.items := by
  unfold close
  cases m.segment.segmentId with
  | none => rfl
  | some segmentId =>
    simp only
    split <;> rfl

variable {m : ProviderSegmentMaterializer}

theorem call_of_not_active
    (h : m.segment.outcome ≠ .active) (c : ProviderSegmentMaterializer.Call) :
    (m.call c).2 = m := by
  cases c with
  | applyUpdate update =>
    have hcheck : m.checkSegment update =
        .error (.closedSegmentImmutable (m.segment.segmentId.getD "") m.segment.outcome) :=
      if_pos h
    simp only [call, applyUpdate, hcheck]
  | close outcome =>
    unfold call close
    cases m.segment.segmentId with
    | none => rfl
    | some segmentId =>
      simp only [if_pos h]

theorem calls_of_not_active
    (h : m.segment.outcome ≠ .active) (cs : List ProviderSegmentMaterializer.Call) :
    m.calls cs = m := by
  induction cs with
  | nil => rfl
  | cons c cs ih =>
    unfold calls at ih ⊢
    rw [foldl_cons, call_of_not_active h, ih]

/-- The items an accepted history of updates explains: each has the position of the first
accepted update with its identity, and each identity in the history has an item. -/
structure Explained (history : List ProviderItemUpdate) (items : List ProviderOutputItem) :
    Prop where
  first : ∀ item ∈ items, ∃ update,
    history.find? (fun u => u.itemId = item.id) = some update ∧ update.position = item.position
  known : ∀ update ∈ history, ∃ item ∈ items, item.id = update.itemId

theorem explained_nil : Explained [] [] where
  first := fun _ h => (not_mem_nil h).elim
  known := fun _ h => (not_mem_nil h).elim

theorem explained_applyToItems {history : List ProviderItemUpdate}
    (h : applyToItems items update = .ok items') (hexp : Explained history items) :
    Explained (history ++ [update]) items' := by
  by_cases hid : ∃ item ∈ items, item.id = update.itemId
  · have hmap := applyToItems_map_key_of_found h hid
    have hkeys : ∀ k, (∃ item ∈ items', item.key = k) ↔ ∃ item ∈ items, item.key = k := by
      intro k
      simpa using (show k ∈ items'.map ProviderOutputItem.key ↔
        k ∈ items.map ProviderOutputItem.key by rw [hmap])
    constructor
    · intro item' hitem'
      obtain ⟨item, hitem, hkey⟩ := (hkeys item'.key).mp ⟨item', hitem', rfl⟩
      obtain ⟨u, hfind, hpos⟩ := hexp.first item hitem
      refine ⟨u, ?_, hpos.trans (congrArg Prod.snd hkey)⟩
      have hid' : item.id = item'.id := congrArg Prod.fst hkey
      rw [List.find?_append, ← hid', hfind, Option.some_or]
    · intro u hu
      have hold : ∃ item ∈ items, item.id = u.itemId := by
        rcases mem_append.mp hu with hu | hu
        · exact hexp.known u hu
        · rw [mem_singleton.mp hu]
          exact hid
      obtain ⟨item, hitem, hsame⟩ := hold
      obtain ⟨item', hitem', hkey⟩ := (hkeys item.key).mpr ⟨item, hitem, rfl⟩
      exact ⟨item', hitem', (congrArg Prod.fst hkey).trans hsame⟩
  · rcases applyToItems_cases h with
      ⟨existing, -, hfind, hkey, -⟩ | ⟨hnone, -, rfl⟩
    · exact absurd ⟨existing, mem_of_find?_eq_some hfind, congrArg Prod.fst hkey⟩ hid
    · constructor
      · intro item hitem
        rw [mem_sortByKey, mem_append, mem_singleton] at hitem
        rcases hitem with hitem | rfl
        · obtain ⟨u, hu, hpos⟩ := hexp.first item hitem
          exact ⟨u, by rw [List.find?_append, hu, Option.some_or], hpos⟩
        · -- no update of the history has the new identity
          have hnew : history.find? (fun u => u.itemId = update.itemId) = none := by
            rw [List.find?_eq_none]
            intro u hu hsame
            obtain ⟨item, hitem, hitemId⟩ := hexp.known u hu
            exact hnone item hitem (hitemId.trans (of_decide_eq_true hsame))
          refine ⟨update, ?_, rfl⟩
          show (history ++ [update]).find? (fun u => u.itemId = update.itemId) = some update
          rw [List.find?_append, hnew, Option.none_or, List.find?_cons_of_pos (by simp)]
      · intro u hu
        rcases mem_append.mp hu with hu | hu
        · obtain ⟨item, hitem, hsame⟩ := hexp.known u hu
          exact ⟨item, by simp [hitem], hsame⟩
        · rw [mem_singleton.mp hu]
          exact ⟨createItemFromUpdate update, by simp, rfl⟩

theorem calls_invariant {history : List ProviderItemUpdate}
    (hordered : Ordered m.segment.items) (hexp : Explained history m.segment.items)
    (cs : List ProviderSegmentMaterializer.Call) :
    Ordered (m.calls cs).segment.items ∧
      Explained (history ++ m.accepted cs) (m.calls cs).segment.items := by
  induction cs generalizing m history with
  | nil =>
    simp only [accepted, append_nil]
    exact ⟨hordered, hexp⟩
  | cons c cs ih =>
    cases c with
    | applyUpdate update =>
      rcases items_applyUpdate m update with ⟨hok, happ⟩ | ⟨⟨e, herr⟩, hitems⟩
      · have hcall : m.accepted (.applyUpdate update :: cs) =
            update :: (m.applyUpdate update).2.accepted cs := by
          rw [accepted, show m.applyUpdate update =
            (.ok (), (m.applyUpdate update).2) from Prod.ext hok rfl]
        rw [hcall, append_cons]
        exact ih (ordered_applyToItems happ hordered) (explained_applyToItems happ hexp)
      · have hcall : m.accepted (.applyUpdate update :: cs) =
            (m.applyUpdate update).2.accepted cs := by
          rw [accepted, show m.applyUpdate update =
            (.error e, (m.applyUpdate update).2) from Prod.ext herr rfl]
        rw [hcall]
        exact ih (hitems.symm ▸ hordered) (hitems.symm ▸ hexp)
    | close outcome =>
      exact ih ((items_close m outcome).symm ▸ hordered) ((items_close m outcome).symm ▸ hexp)

end Items

namespace ProviderSegmentMaterializer

variable {m : ProviderSegmentMaterializer}

/-- A materializer that no call has reached yet. -/
def Fresh (m : ProviderSegmentMaterializer) : Prop :=
  m = pending ∨ ∃ segmentId, m = new segmentId

theorem Fresh.items (h : m.Fresh) : m.segment.items = [] := by
  rcases h with rfl | ⟨segmentId, rfl⟩ <;> rfl

theorem segment_ext {m₁ m₂ : ProviderSegmentMaterializer}
    (hid : m₁.segment.segmentId = m₂.segment.segmentId)
    (houtcome : m₁.segment.outcome = m₂.segment.outcome)
    (hitems : m₁.segment.items = m₂.segment.items) : m₁.segment = m₂.segment := by
  cases h₁ : m₁.segment
  cases h₂ : m₂.segment
  rw [h₁, h₂] at hid houtcome hitems
  simp only at hid houtcome hitems
  rw [hid, houtcome, hitems]

theorem eq_of_runs {m m₁ m₂ : ProviderSegmentMaterializer} {us vs : List ProviderItemUpdate}
    (hus : Run Accepts m us m₁) (hvs : Run Accepts m vs m₂)
    (hsame : ∀ id, part itemId id us = part itemId id vs) :
    m₁ = m₂ := by
  have hid : m₁.segment.segmentId = m₂.segment.segmentId := by
    cases us with
    | nil =>
      have hvs_nil : vs = [] := by
        rw [eq_nil_iff_forall_not_mem]
        intro v hv
        have hv' : v ∈ part itemId v.itemId vs := (mem_part _).mpr ⟨hv, rfl⟩
        rw [← hsame] at hv'
        cases hv'
      rw [(segmentId_of_run hus).1 rfl, (segmentId_of_run hvs).1 hvs_nil]
    | cons u us =>
      have hu : u ∈ part itemId u.itemId (u :: us) :=
        (mem_part _).mpr ⟨mem_cons_self .., rfl⟩
      rw [hsame, mem_part] at hu
      rw [(segmentId_of_run hus).2 u (mem_cons_self ..), (segmentId_of_run hvs).2 u hu.1]
  have houtcome : m₁.segment.outcome = m₂.segment.outcome :=
    (outcome_of_run hus).trans (outcome_of_run hvs).symm
  have hseqs : m₁.lastUpdateSeq = m₂.lastUpdateSeq := by
    refine Std.ExtTreeMap.ext_getElem? fun id => ?_
    rw [lastUpdateSeq_of_run hus, lastUpdateSeq_of_run hvs, hsame]
  have hsegment := segment_ext hid houtcome (items_eq_of_runs hus hvs hsame)
  cases m₁
  cases m₂
  simp only at hsegment hseqs
  rw [hsegment, hseqs]

theorem key_of_calls (hm : m.Fresh) {cs : List Call}
    {item : ProviderOutputItem} (hitem : item ∈ (m.calls cs).segment.items) (cs' : List Call) :
    ∃ item' ∈ (m.calls (cs ++ cs')).segment.items, item'.key = item.key := by
  have hstart : Ordered m.segment.items ∧ Explained [] m.segment.items := by
    rw [hm.items]
    exact ⟨ordered_nil, explained_nil⟩
  obtain ⟨hordered, hexp⟩ := calls_invariant hstart.1 hstart.2 cs
  obtain ⟨update, hfirst, hpos⟩ := hexp.first item hitem
  obtain ⟨-, hexp'⟩ := calls_invariant hordered hexp cs'
  have hsame : update.itemId = item.id := by simpa using List.find?_some hfirst
  obtain ⟨item', hitem', hid'⟩ := hexp'.known update
    (mem_append_left _ (mem_of_find?_eq_some hfirst))
  obtain ⟨update', hfirst', hpos'⟩ := hexp'.first item' hitem'
  have hid : item'.id = item.id := hid'.trans hsame
  rw [List.find?_append, hid, hfirst, Option.some_or, Option.some_inj] at hfirst'
  subst hfirst'
  rw [calls_append]
  exact ⟨item', hitem', Prod.ext hid (hpos'.symm.trans hpos)⟩

/-- **A segment is the updates of its items.**  From any materializer, accepted sequences with
the same updates for each item build the same materializer, however the items interleave.  In
every materializer that calls reach from a new one, accepted or refused, identities are
distinct, positions increase strictly, and an item has, and keeps, the position of the first
update accepted for it; a segment that is not active is left alone. -/
theorem materialization :
    (∀ (m m₁ m₂ : ProviderSegmentMaterializer) (us vs : List ProviderItemUpdate),
        Run Accepts m us m₁ → Run Accepts m vs m₂ →
        (∀ id, part ProviderItemUpdate.itemId id us = part ProviderItemUpdate.itemId id vs) →
        m₁ = m₂) ∧
      ∀ (m : ProviderSegmentMaterializer) (cs cs' : List Call), m.Fresh →
        Ordered (m.calls cs).segment.items ∧
        (∀ item ∈ (m.calls cs).segment.items,
          (∃ update, (m.accepted cs).find? (fun u => u.itemId = item.id) = some update ∧
            update.position = item.position) ∧
          ∃ item' ∈ (m.calls (cs ++ cs')).segment.items, item'.key = item.key) ∧
        ((m.calls cs).segment.outcome ≠ .active → m.calls (cs ++ cs') = m.calls cs) := by
  refine ⟨fun m m₁ m₂ us vs hus hvs hsame => eq_of_runs hus hvs hsame,
    fun m cs cs' hm => ?_⟩
  have hstart : Ordered m.segment.items ∧ Explained [] m.segment.items := by
    rw [hm.items]
    exact ⟨ordered_nil, explained_nil⟩
  obtain ⟨hordered, hexp⟩ := calls_invariant hstart.1 hstart.2 cs
  refine ⟨hordered, fun item hitem => ⟨hexp.first item hitem, key_of_calls hm hitem cs'⟩, ?_⟩
  intro houtcome
  rw [calls_append, calls_of_not_active houtcome]

/-- An answer in position 1 and a call in position 0, the answer first. -/
def answerThenCall : List ProviderItemUpdate :=
  [⟨"resp", "msg", 1, 1, .messageDelta "hi"⟩, ⟨"resp", "call", 0, 1, .functionCallStart "exec"⟩,
    ⟨"resp", "msg", 1, 2, .messageDelta "!"⟩]

/-- The same updates with the call first. -/
def callThenAnswer : List ProviderItemUpdate :=
  [⟨"resp", "call", 0, 1, .functionCallStart "exec"⟩, ⟨"resp", "msg", 1, 1, .messageDelta "hi"⟩,
    ⟨"resp", "msg", 1, 2, .messageDelta "!"⟩]

theorem materialization_answer_and_call :
    pending.calls (answerThenCall.map .applyUpdate) =
        pending.calls (callThenAnswer.map .applyUpdate) ∧
      Ordered (pending.calls (answerThenCall.map .applyUpdate)).segment.items := by
  have hfresh : pending.Fresh := Or.inl rfl
  refine ⟨?_, (materialization.2 pending (answerThenCall.map .applyUpdate) [] hfresh).1⟩
  refine materialization.1 pending _ _ answerThenCall callThenAnswer ?_ ?_ ?_
  · exact Run.cons rfl (Run.cons rfl (Run.cons rfl (Run.nil _)))
  · exact Run.cons rfl (Run.cons rfl (Run.cons rfl (Run.nil _)))
  · intro id
    simp only [answerThenCall, callThenAnswer, part, List.filter_cons, List.filter_nil]
    by_cases hmsg : "msg" = id
    · subst hmsg
      rfl
    · simp [hmsg]

end ProviderSegmentMaterializer

end Chelix.Common
