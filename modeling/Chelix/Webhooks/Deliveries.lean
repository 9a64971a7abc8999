import Chelix.Library.KeyedSort
import Mathlib.Data.String.Basic

/-!
# The table of webhook deliveries

The rows carry the two constraints of the schema as fields: an id is never given twice, and two
rows of one webhook with a delivery key have different keys.  A row without a key (`NULL`) is not
constrained; a row with an empty key is.
-/

namespace Chelix.Webhooks

open Chelix.Library List

inductive DeliveryStatus where
  | received
  | filtered
  | deduplicated
  | rejected
  | queued
  | processing
  | completed
  | failed
  deriving DecidableEq

namespace DeliveryStatus

/-- The states in which a delivery is left to do. -/
def unprocessed : DeliveryStatus → Bool
  | .received | .queued | .processing => true
  | _ => false

def finished : DeliveryStatus → Bool
  | .completed | .failed => true
  | _ => false

theorem finished_eq_false_of_unprocessed {status : DeliveryStatus} (h : status.unprocessed = true) :
    status.finished = false := by
  cases status <;> first | rfl | exact h.symm

end DeliveryStatus

structure NewDelivery where
  webhookId : ℕ
  receivedAt : String
  status : DeliveryStatus
  deliveryKey : Option String
  deriving DecidableEq

structure Delivery extends NewDelivery where
  id : ℕ
  deriving DecidableEq

/-- The unique index on the webhook and a key that is not `NULL` takes the two for the same. -/
def SameKey (d d' : NewDelivery) : Prop :=
  d.webhookId = d'.webhookId ∧ d.deliveryKey.isSome = true ∧ d.deliveryKey = d'.deliveryKey

theorem SameKey.symm {d d' : NewDelivery} (h : SameKey d d') : SameKey d' d :=
  ⟨h.1.symm, h.2.2 ▸ h.2.1, h.2.2.symm⟩

theorem SameKey.trans {d d' d'' : NewDelivery} (h : SameKey d d') (h' : SameKey d' d'') :
    SameKey d d'' :=
  ⟨h.1.trans h'.1, h.2.1, h.2.2.trans h'.2.2⟩

instance (d d' : NewDelivery) : Decidable (SameKey d d') :=
  inferInstanceAs (Decidable (_ ∧ _ ∧ _))

structure DeliveryTable where
  rows : List Delivery
  /-- The next value of the `AUTOINCREMENT` column. -/
  nextId : ℕ
  ids : rows.Pairwise fun d d' => d.id ≠ d'.id
  fresh : ∀ d ∈ rows, d.id < nextId
  keys : rows.Pairwise fun d d' => ¬ SameKey d.toNewDelivery d'.toNewDelivery

namespace DeliveryTable

variable (t : DeliveryTable)

/-! ## Statements -/

def getDelivery (id : ℕ) : Option Delivery := t.rows.find? (·.id = id)

def findByDeliveryKey (webhookId : ℕ) (key : String) : Option ℕ :=
  (t.rows.find? fun d => d.webhookId = webhookId ∧ d.deliveryKey = some key).map (·.id)

/-- Some row has the key of the new one. -/
def Refuses (d : NewDelivery) : Prop := ∃ row ∈ t.rows, SameKey row.toNewDelivery d

instance (d : NewDelivery) : Decidable (t.Refuses d) :=
  inferInstanceAs (Decidable (∃ row ∈ t.rows, _))

/-- The id of the new row, and the table with it; `none` where the index refuses the row. -/
def insertDelivery (d : NewDelivery) : Option (ℕ × DeliveryTable) :=
  if h : t.Refuses d then none
  else some (t.nextId,
    { rows := t.rows ++ [⟨d, t.nextId⟩]
      nextId := t.nextId + 1
      ids := by
        refine pairwise_append.mpr ⟨t.ids, pairwise_singleton _ _, ?_⟩
        intro row hrow new hnew
        rw [mem_singleton.mp hnew]
        exact (t.fresh row hrow).ne
      fresh := by
        intro row hrow
        rcases mem_append.mp hrow with hrow | hrow
        · exact (t.fresh row hrow).trans (Nat.lt_succ_self _)
        · rw [mem_singleton.mp hrow]
          exact Nat.lt_succ_self _
      keys := by
        refine pairwise_append.mpr ⟨t.keys, pairwise_singleton _ _, ?_⟩
        intro row hrow new hnew hsame
        rw [mem_singleton.mp hnew] at hsame
        exact h ⟨row, hrow, hsame⟩ })

def withStatus (id : ℕ) (status : DeliveryStatus) (d : Delivery) : Delivery :=
  if d.id = id then { d with status } else d

@[simp] theorem withStatus_id (id : ℕ) (status : DeliveryStatus) (d : Delivery) :
    (withStatus id status d).id = d.id := by
  unfold withStatus
  split <;> rfl

variable {d d' : Delivery} {id : ℕ}

theorem sameKey_withStatus {status : DeliveryStatus} :
    SameKey (withStatus id status d).toNewDelivery (withStatus id status d').toNewDelivery ↔
      SameKey d.toNewDelivery d'.toNewDelivery := by
  unfold withStatus
  split <;> split <;> exact Iff.rfl

/-- The update looks at the id only, whatever the status of the row. -/
def updateDeliveryStatus (id : ℕ) (status : DeliveryStatus) : DeliveryTable where
  rows := t.rows.map (withStatus id status)
  nextId := t.nextId
  ids := pairwise_map.mpr (t.ids.imp fun h => by simpa only [withStatus_id] using h)
  fresh := by
    intro row hrow
    obtain ⟨d, hd, rfl⟩ := mem_map.mp hrow
    rw [withStatus_id]
    exact t.fresh d hd
  keys := pairwise_map.mpr (t.keys.imp fun h => fun hsame => h (sameKey_withStatus.mp hsame))

/-- The ids of the rows that are left to do, those received first before the others. -/
def listUnprocessedDeliveries : List ℕ :=
  ((sortByKey (·.receivedAt) t.rows).filter (·.status.unprocessed)).map (·.id)

/-! ## What the statements do -/

variable {t}

theorem eq_of_id_eq (hd : d ∈ t.rows) (hd' : d' ∈ t.rows) (h : d.id = d'.id) : d = d' :=
  inj_on_of_nodup_map (pairwise_map.mpr t.ids) hd hd' h

theorem eq_of_sameKey (hd : d ∈ t.rows) (hd' : d' ∈ t.rows)
    (h : SameKey d.toNewDelivery d'.toNewDelivery) : d = d' := by
  have hsymm : Std.Symm fun d d' : Delivery =>
      SameKey d.toNewDelivery d'.toNewDelivery → d = d' :=
    ⟨fun _ _ heq hsame => (heq hsame.symm).symm⟩
  have hkeys : t.rows.Pairwise fun d d' => SameKey d.toNewDelivery d'.toNewDelivery → d = d' :=
    t.keys.imp fun hne hsame => absurd hsame hne
  exact List.Pairwise.forall_of_forall (fun _ _ _ => rfl) hkeys hd hd' h

theorem getDelivery_eq_some (hd : d ∈ t.rows) : t.getDelivery d.id = some d := by
  obtain ⟨d', hfind⟩ : ∃ d', t.getDelivery d.id = some d' :=
    Option.isSome_iff_exists.mp (find?_isSome.mpr ⟨d, hd, decide_eq_true rfl⟩)
  have hid : d'.id = d.id := by simpa only [decide_eq_true_eq] using find?_some hfind
  rw [hfind, eq_of_id_eq (mem_of_find?_eq_some hfind) hd hid]

theorem findByDeliveryKey_eq_some {webhookId : ℕ} {key : String}
    (h : t.findByDeliveryKey webhookId key = some id) :
    ∃ d ∈ t.rows, d.id = id ∧ d.webhookId = webhookId ∧ d.deliveryKey = some key := by
  obtain ⟨d, hfind, rfl⟩ := Option.map_eq_some_iff.mp h
  obtain ⟨hwebhook, hkey⟩ : d.webhookId = webhookId ∧ d.deliveryKey = some key := by
    simpa only [decide_eq_true_eq] using find?_some hfind
  exact ⟨d, mem_of_find?_eq_some hfind, rfl, hwebhook, hkey⟩

theorem mem_listUnprocessedDeliveries :
    id ∈ t.listUnprocessedDeliveries ↔ ∃ d ∈ t.rows, d.id = id ∧ d.status.unprocessed = true := by
  simp only [listUnprocessedDeliveries, mem_map, mem_filter, mem_sortByKey]
  constructor
  · rintro ⟨d, ⟨hd, hstatus⟩, rfl⟩
    exact ⟨d, hd, rfl, hstatus⟩
  · rintro ⟨d, hd, rfl, hstatus⟩
    exact ⟨d, ⟨hd, hstatus⟩, rfl⟩

theorem nodup_listUnprocessedDeliveries : t.listUnprocessedDeliveries.Nodup := by
  have hids : (t.rows.map (·.id)).Nodup := pairwise_map.mpr t.ids
  have hsorted : ((sortByKey (·.receivedAt) t.rows).map (·.id)).Nodup :=
    ((perm_sortByKey (·.receivedAt) t.rows).map _).nodup_iff.mpr hids
  exact hsorted.sublist (filter_sublist.map _)

theorem exists_status_update (status : DeliveryStatus) (h : ∃ d ∈ t.rows, d.id = id) :
    ∃ d ∈ (t.updateDeliveryStatus id status).rows, d.id = id ∧ d.status = status := by
  obtain ⟨d, hd, rfl⟩ := h
  refine ⟨withStatus d.id status d, mem_map_of_mem hd, withStatus_id _ _ _, ?_⟩
  rw [withStatus, if_pos rfl]

theorem mem_update_of_ne (status : DeliveryStatus) (hd : d ∈ t.rows) (hne : d.id ≠ id) :
    d ∈ (t.updateDeliveryStatus id status).rows := by
  refine mem_map.mpr ⟨d, hd, ?_⟩
  rw [withStatus, if_neg hne]

theorem insertDelivery_eq_none_iff {d : NewDelivery} :
    t.insertDelivery d = none ↔ t.Refuses d := by
  unfold insertDelivery
  split
  · next h => exact ⟨fun _ => h, fun _ => rfl⟩
  · next h => exact ⟨nofun, fun h' => absurd h' h⟩

theorem insertDelivery_eq_some {d : NewDelivery} {t' : DeliveryTable}
    (h : t.insertDelivery d = some (id, t')) :
    id = t.nextId ∧ t'.rows = t.rows ++ [⟨d, id⟩] ∧ t'.nextId = id + 1 := by
  unfold insertDelivery at h
  split at h
  · cases h
  · cases h
    exact ⟨rfl, rfl, rfl⟩

end DeliveryTable

end Chelix.Webhooks
