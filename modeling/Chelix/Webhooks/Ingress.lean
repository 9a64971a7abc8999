import Chelix.Library.Json
import Chelix.Library.Run
import Chelix.Webhooks.Deliveries

/-!
# The webhook ingress

A request that has passed the checks of its webhook looks for an earlier delivery with its key,
inserts a row, and sends the row's id to the worker.  Between these steps other requests go on.

* **`ingress_accepts_once`**: every run of such steps.
-/

namespace Chelix.Webhooks

open Chelix.Library Function

/-! ## Delivery keys -/

inductive SourceProfile where
  | generic
  | github
  | gitlab
  | stripe
  deriving DecidableEq

/-- The profile with this id in the registry. -/
def SourceProfile.ofId : String → Option SourceProfile
  | "generic" => some .generic
  | "github" => some .github
  | "gitlab" => some .gitlab
  | "stripe" => some .stripe
  | _ => none

structure IngestRequest where
  webhookId : ℕ
  sourceProfile : String
  /-- The values are those that can be read as text. -/
  headers : List (String × Option String)
  body : List UInt8
  receivedAt : String

/-- The first value of a header, if it can be read as text. -/
def headerText (headers : List (String × Option String)) (name : String) : Option String :=
  (headers.find? (·.1 = name)).bind (·.2)

section Keys

variable (sha256Hex : List UInt8 → String) (fromSlice : List UInt8 → Option Json)

/-- Neither the generic nor the GitHub profile looks at the body; GitLab falls back to a hash of
it, and Stripe takes the id of the event. -/
def SourceProfile.parseDeliveryKey (headers : List (String × Option String)) (body : List UInt8) :
    SourceProfile → Option String
  | .generic =>
    ["x-delivery-id", "x-request-id", "x-webhook-id", "idempotency-key"].findSome?
      (headerText headers)
  | .github => headerText headers "x-github-delivery"
  | .gitlab => (headerText headers "idempotency-key").or (some ("sha256:" ++ sha256Hex body))
  | .stripe => (fromSlice body).bind fun event => (event.get "id").bind Json.asStr

def IngestRequest.deliveryKey (request : IngestRequest) : Option String :=
  (SourceProfile.ofId request.sourceProfile).bind
    (SourceProfile.parseDeliveryKey sha256Hex fromSlice request.headers request.body)

/-- The row that the request inserts. -/
def IngestRequest.delivery (request : IngestRequest) : NewDelivery where
  webhookId := request.webhookId
  receivedAt := request.receivedAt
  status := .queued
  deliveryKey := request.deliveryKey sha256Hex fromSlice

end Keys

/-- An empty key is taken for none. -/
def checkDuplicate (t : DeliveryTable) (webhookId : ℕ) : Option String → Option ℕ
  | some key => if key ≠ "" then t.findByDeliveryKey webhookId key else none
  | none => none

theorem checkDuplicate_eq_some {t : DeliveryTable} {d : NewDelivery} {id : ℕ}
    (h : checkDuplicate t d.webhookId d.deliveryKey = some id) :
    d.deliveryKey.getD "" ≠ "" ∧ ∃ row ∈ t.rows, row.id = id ∧ SameKey row.toNewDelivery d := by
  cases hkey : d.deliveryKey with
  | none =>
    rw [hkey] at h
    cases h
  | some text =>
    rw [hkey, checkDuplicate] at h
    split at h
    · next hne =>
        obtain ⟨row, hrow, hid, hwebhook, htext⟩ := DeliveryTable.findByDeliveryKey_eq_some h
        exact ⟨hne, row, hrow, hid, hwebhook, by rw [htext]; rfl, by rw [htext, hkey]⟩
    · cases h

theorem not_refuses_of_checkDuplicate {t : DeliveryTable} {d : NewDelivery}
    (h : checkDuplicate t d.webhookId d.deliveryKey = none) (hne : d.deliveryKey ≠ some "") :
    ¬t.Refuses d := by
  rintro ⟨row, hrow, hwebhook, hsome, hkey⟩
  obtain ⟨text, htext⟩ := Option.isSome_iff_exists.mp hsome
  rw [← hkey, htext] at h hne
  rw [checkDuplicate, if_pos (mt (congrArg some) hne)] at h
  rw [DeliveryTable.findByDeliveryKey, Option.map_eq_none_iff, List.find?_eq_none] at h
  exact h row hrow (decide_eq_true ⟨hwebhook, htext⟩)

/-! ## Requests -/

inductive IngestAnswer where
  | accepted (deliveryId : ℕ)
  | deduplicated (existingDeliveryId : ℕ)
  | internalError
  deriving DecidableEq

/-- What has happened to a request that passed the checks of its webhook. -/
inductive RequestPhase where
  | arrived
  | checked
  | inserted (deliveryId : ℕ)
  | answered (answer : IngestAnswer)
  deriving DecidableEq

/-- The row that the request has inserted. -/
def RequestPhase.rowId : RequestPhase → Option ℕ
  | .inserted id => some id
  | .answered (.accepted id) => some id
  | _ => none

structure IngressRun where
  table : DeliveryTable
  phase : ℕ → RequestPhase
  /-- The worker's channel is set, and its receiver is there. -/
  receiving : Bool
  /-- The ids sent to the worker. -/
  sent : List ℕ

def IngressRun.start (table : DeliveryTable) (receiving : Bool) : IngressRun where
  table
  phase := fun _ => .arrived
  receiving
  sent := []

def IngressRun.setPhase (s : IngressRun) (n : ℕ) (phase : RequestPhase) : IngressRun :=
  { s with phase := Function.update s.phase n phase }

inductive IngressEvent where
  | check (n : ℕ)
  | insert (n : ℕ)
  | send (n : ℕ)
  /-- The worker's channel is set, or its receiver goes away. -/
  | worker (receiving : Bool)
  deriving DecidableEq

section Steps

variable (deliveries : ℕ → NewDelivery)

/-- One step of one request; `deliveries n` is what request `n` inserts. -/
inductive IngressStep (s : IngressRun) : IngressEvent → IngressRun → Prop
  | deduplicate {n id : ℕ} (hphase : s.phase n = .arrived)
      (hfound : checkDuplicate s.table (deliveries n).webhookId (deliveries n).deliveryKey =
        some id) :
      IngressStep s (.check n) (s.setPhase n (.answered (.deduplicated id)))
  | check {n : ℕ} (hphase : s.phase n = .arrived)
      (hnone : checkDuplicate s.table (deliveries n).webhookId (deliveries n).deliveryKey = none) :
      IngressStep s (.check n) (s.setPhase n .checked)
  | insert {n id : ℕ} {table : DeliveryTable} (hphase : s.phase n = .checked)
      (hinserted : s.table.insertDelivery (deliveries n) = some (id, table)) :
      IngressStep s (.insert n) ({ s with table }.setPhase n (.inserted id))
  | refuse {n : ℕ} (hphase : s.phase n = .checked)
      (hnone : s.table.insertDelivery (deliveries n) = none) :
      IngressStep s (.insert n) (s.setPhase n (.answered .internalError))
  | send {n id : ℕ} (hphase : s.phase n = .inserted id) (hreceiving : s.receiving = true) :
      IngressStep s (.send n)
        ({ s with sent := s.sent ++ [id] }.setPhase n (.answered (.accepted id)))
  /-- The id is not sent, and the request is answered all the same. -/
  | drop {n id : ℕ} (hphase : s.phase n = .inserted id) (hreceiving : s.receiving = false) :
      IngressStep s (.send n) (s.setPhase n (.answered (.accepted id)))
  | worker {receiving : Bool} : IngressStep s (.worker receiving) { s with receiving }

/-- A request inserts its row while no other one with its key has looked for the key and not yet
inserted; the first row with an empty key is the last one; and an id is sent while the worker
receives it. -/
def Undisturbed (s : IngressRun) : IngressEvent → Prop
  | .insert n =>
    if (deliveries n).deliveryKey = some "" then ¬s.table.Refuses (deliveries n)
    else ∀ m, m ≠ n → SameKey (deliveries m) (deliveries n) → s.phase m ≠ .checked
  | .send _ => s.receiving = true
  | .check _ | .worker _ => True

variable {deliveries}

/-- What holds of a request that stands in some phase. -/
def RequestPhase.Sound (s : IngressRun) (d : NewDelivery) : RequestPhase → Prop
  | .arrived => True
  | .checked => d.deliveryKey ≠ some "" → ¬s.table.Refuses d
  | .inserted id => ⟨d, id⟩ ∈ s.table.rows ∧ id ∉ s.sent
  | .answered (.accepted id) => ⟨d, id⟩ ∈ s.table.rows ∧ id ∈ s.sent
  | .answered (.deduplicated id) =>
    d.deliveryKey.getD "" ≠ "" ∧ ∃ row ∈ s.table.rows, row.id = id ∧ SameKey row.toNewDelivery d
  | .answered .internalError => False

theorem RequestPhase.Sound.row {s : IngressRun} {d : NewDelivery} {phase : RequestPhase} {id : ℕ}
    (h : phase.Sound s d) (hid : phase.rowId = some id) : ⟨d, id⟩ ∈ s.table.rows := by
  cases phase with
  | arrived | checked => cases hid
  | inserted id' =>
    cases hid
    exact h.1
  | answered answer =>
    cases answer with
    | accepted id' =>
      cases hid
      exact h.1
    | deduplicated _ | internalError => cases hid

variable (deliveries) in
/-- What holds while the requests go on: each row is one that was there or that of one request,
whose id is sent once. -/
structure Accepts (table : DeliveryTable) (s : IngressRun) : Prop where
  sound : ∀ n, (s.phase n).Sound s (deliveries n)
  owner : ∀ n m id, (s.phase n).rowId = some id → (s.phase m).rowId = some id → n = m
  row : ∀ d ∈ s.table.rows, d ∈ table.rows ∨
    ∃ n, d.toNewDelivery = deliveries n ∧ (s.phase n).rowId = some d.id
  sender : ∀ id ∈ s.sent, ∃ n, s.phase n = .answered (.accepted id)
  once : s.sent.Nodup
  grows : table.nextId ≤ s.table.nextId
  fresh : ∀ n id, (s.phase n).rowId = some id → table.nextId ≤ id

namespace Accepts

variable {table : DeliveryTable} {s : IngressRun}

theorem start (receiving : Bool) : Accepts deliveries table (.start table receiving) where
  sound _ := trivial
  owner _ _ _ h := nomatch h
  row _ hd := .inl hd
  sender _ h := absurd h List.not_mem_nil
  once := List.nodup_nil
  grows := Nat.le_refl _
  fresh _ _ h := nomatch h

theorem setPhase (h : Accepts deliveries table s) {n : ℕ} {phase : RequestPhase}
    (hopen : ∀ answer, s.phase n ≠ .answered answer) (hrow : phase.rowId = (s.phase n).rowId)
    (hsound : phase.Sound s (deliveries n)) : Accepts deliveries table (s.setPhase n phase) := by
  have hrowId : ∀ m, (Function.update s.phase n phase m).rowId = (s.phase m).rowId := by
    intro m
    by_cases heq : m = n
    · rw [heq, update_self, hrow]
    · rw [update_of_ne heq]
  refine ⟨fun m => ?_, fun m m' id hid hid' => ?_, fun d hd => ?_, fun id hid => ?_, h.once,
    h.grows, fun m id hid => h.fresh m id ((hrowId m).symm.trans hid)⟩
  · show (Function.update s.phase n phase m).Sound s (deliveries m)
    by_cases heq : m = n
    · rw [heq, update_self]
      exact hsound
    · rw [update_of_ne heq]
      exact h.sound m
  · exact h.owner m m' id ((hrowId m).symm.trans hid) ((hrowId m').symm.trans hid')
  · refine (h.row d hd).imp_right fun ⟨m, hm, hid⟩ => ⟨m, hm, (hrowId m).trans hid⟩
  · obtain ⟨m, hm⟩ := h.sender id hid
    have hne : m ≠ n := by
      rintro rfl
      exact hopen _ hm
    exact ⟨m, (update_of_ne hne ..).trans hm⟩

theorem insert (h : Accepts deliveries table s) {n id : ℕ} {table' : DeliveryTable}
    (hphase : s.phase n = .checked)
    (hinserted : s.table.insertDelivery (deliveries n) = some (id, table'))
    (halone : (deliveries n).deliveryKey ≠ some "" →
      ∀ m, m ≠ n → SameKey (deliveries m) (deliveries n) → s.phase m ≠ .checked) :
    Accepts deliveries table ({ s with table := table' }.setPhase n (.inserted id)) := by
  obtain ⟨hid, hrows, hnext⟩ := DeliveryTable.insertDelivery_eq_some hinserted
  have hgrows : table.nextId ≤ id := hid ▸ h.grows
  have hmem : ∀ d, d ∈ table'.rows ↔ d ∈ s.table.rows ∨ d = ⟨deliveries n, id⟩ := by
    intro d
    rw [hrows, List.mem_append, List.mem_singleton]
  -- The ids in the table are smaller.
  have hnew : ∀ m, (s.phase m).rowId ≠ some id := by
    intro m hm
    have hlt : id < s.table.nextId := s.table.fresh _ ((h.sound m).row hm)
    exact hlt.ne hid
  have hunsent : id ∉ s.sent := by
    intro hsent
    obtain ⟨m, hm⟩ := h.sender id hsent
    exact hnew m (by rw [hm]; rfl)
  have hcases : ∀ m id', (Function.update s.phase n (.inserted id) m).rowId = some id' →
      m = n ∧ id' = id ∨ m ≠ n ∧ (s.phase m).rowId = some id' := by
    intro m id' hm
    by_cases heq : m = n
    · rw [heq, update_self] at hm
      exact .inl ⟨heq, (Option.some.inj hm).symm⟩
    · rw [update_of_ne heq] at hm
      exact .inr ⟨heq, hm⟩
  refine ⟨fun m => ?_, fun m m' id' hm hm' => ?_, fun d hd => ?_, fun id' hid' => ?_, h.once,
    hnext ▸ Nat.le_succ_of_le hgrows, fun m id' hm => ?_⟩
  · show (Function.update s.phase n (.inserted id) m).Sound
      ({ s with table := table' }.setPhase n (.inserted id)) (deliveries m)
    by_cases heq : m = n
    · rw [heq, update_self]
      exact ⟨(hmem _).mpr (.inr rfl), hunsent⟩
    · rw [update_of_ne heq]
      have hsound := h.sound m
      cases hm : s.phase m with
      | arrived => trivial
      | checked =>
        rw [hm] at hsound
        rintro hne ⟨row, hrow, hsame⟩
        rcases (hmem row).mp hrow with hold | rfl
        · exact hsound hne ⟨row, hold, hsame⟩
        · refine halone ?_ m heq hsame.symm hm
          have hkey : (deliveries n).deliveryKey = (deliveries m).deliveryKey := hsame.2.2
          rwa [hkey]
      | inserted id' =>
        rw [hm] at hsound
        exact ⟨(hmem _).mpr (.inl hsound.1), hsound.2⟩
      | answered answer =>
        rw [hm] at hsound
        cases answer with
        | accepted id' => exact ⟨(hmem _).mpr (.inl hsound.1), hsound.2⟩
        | deduplicated id' =>
          obtain ⟨hkey, row, hrow, hsame⟩ := hsound
          exact ⟨hkey, row, (hmem row).mpr (.inl hrow), hsame⟩
        | internalError => exact hsound
  · rcases hcases m id' hm with ⟨rfl, rfl⟩ | ⟨-, hold⟩
    · rcases hcases m' id' hm' with ⟨rfl, -⟩ | ⟨-, hold'⟩
      · rfl
      · exact absurd hold' (hnew m')
    · rcases hcases m' id' hm' with ⟨-, rfl⟩ | ⟨-, hold'⟩
      · exact absurd hold (hnew m)
      · exact h.owner m m' id' hold hold'
  · rcases (hmem d).mp hd with hold | rfl
    · refine (h.row d hold).imp_right fun ⟨m, hm, hrow⟩ => ⟨m, hm, ?_⟩
      have hne : m ≠ n := by
        rintro rfl
        rw [hphase] at hrow
        cases hrow
      exact (congrArg RequestPhase.rowId (update_of_ne hne ..)).trans hrow
    · refine .inr ⟨n, rfl, ?_⟩
      show (Function.update s.phase n (.inserted id) n).rowId = some id
      rw [update_self]
      rfl
  · obtain ⟨m, hm⟩ := h.sender id' hid'
    have hne : m ≠ n := by
      rintro rfl
      rw [hphase] at hm
      cases hm
    exact ⟨m, (update_of_ne hne ..).trans hm⟩
  · rcases hcases m id' hm with ⟨-, rfl⟩ | ⟨-, hold⟩
    · exact hgrows
    · exact h.fresh m id' hold

theorem send (h : Accepts deliveries table s) {n id : ℕ} (hphase : s.phase n = .inserted id) :
    Accepts deliveries table
      ({ s with sent := s.sent ++ [id] }.setPhase n (.answered (.accepted id))) := by
  have hsound := h.sound n
  rw [hphase] at hsound
  have hrowId : ∀ m, (Function.update s.phase n (.answered (.accepted id)) m).rowId =
      (s.phase m).rowId := by
    intro m
    by_cases heq : m = n
    · rw [heq, update_self, hphase]
      rfl
    · rw [update_of_ne heq]
  refine ⟨fun m => ?_, fun m m' id' hm hm' => ?_, fun d hd => ?_, fun id' hid' => ?_, ?_,
    h.grows, fun m id' hm => h.fresh m id' ((hrowId m).symm.trans hm)⟩
  · show (Function.update s.phase n (.answered (.accepted id)) m).Sound
      ({ s with sent := s.sent ++ [id] }.setPhase n (.answered (.accepted id))) (deliveries m)
    by_cases heq : m = n
    · rw [heq, update_self]
      exact ⟨hsound.1, List.mem_append_right _ (List.mem_singleton.mpr rfl)⟩
    · rw [update_of_ne heq]
      have hother := h.sound m
      cases hm : s.phase m with
      | arrived => trivial
      | checked =>
        rw [hm] at hother
        exact hother
      | inserted id' =>
        rw [hm] at hother
        refine ⟨hother.1, fun hsent => ?_⟩
        rcases List.mem_append.mp hsent with hold | hnew
        · exact hother.2 hold
        · rw [List.mem_singleton] at hnew
          exact heq (h.owner m n id (by rw [hm, hnew]; rfl) (by rw [hphase]; rfl))
      | answered answer =>
        rw [hm] at hother
        cases answer with
        | accepted id' => exact ⟨hother.1, List.mem_append_left _ hother.2⟩
        | deduplicated id' => exact hother
        | internalError => exact hother
  · exact h.owner m m' id' ((hrowId m).symm.trans hm) ((hrowId m').symm.trans hm')
  · refine (h.row d hd).imp_right fun ⟨m, hm, hid⟩ => ⟨m, hm, (hrowId m).trans hid⟩
  · rcases List.mem_append.mp hid' with hold | hnew
    · obtain ⟨m, hm⟩ := h.sender id' hold
      have hne : m ≠ n := by
        rintro rfl
        rw [hphase] at hm
        cases hm
      exact ⟨m, (update_of_ne hne ..).trans hm⟩
    · rw [List.mem_singleton.mp hnew]
      exact ⟨n, update_self ..⟩
  · refine List.nodup_append.mpr ⟨h.once, List.nodup_singleton _, ?_⟩
    rintro a ha b hb rfl
    rw [List.mem_singleton.mp hb] at ha
    exact hsound.2 ha

/-- **One step**, if no other request with its key disturbs it. -/
theorem step (h : Accepts deliveries table s) {t : IngressRun} {e : IngressEvent}
    (hstep : IngressStep deliveries s e t) (hundisturbed : Undisturbed deliveries s e) :
    Accepts deliveries table t := by
  cases hstep with
  | deduplicate hphase hfound =>
    refine h.setPhase (fun _ => by rw [hphase]; exact nofun) (by rw [hphase]; rfl) ?_
    exact checkDuplicate_eq_some hfound
  | check hphase hnone =>
    refine h.setPhase (fun _ => by rw [hphase]; exact nofun) (by rw [hphase]; rfl) ?_
    exact not_refuses_of_checkDuplicate hnone
  | insert hphase hinserted =>
    refine h.insert hphase hinserted fun hne => ?_
    rw [Undisturbed, if_neg hne] at hundisturbed
    exact hundisturbed
  | @refuse n hphase hnone =>
    -- The key was not there when it was looked for, and nobody has inserted it since.
    refine absurd (DeliveryTable.insertDelivery_eq_none_iff.mp hnone) ?_
    by_cases hempty : (deliveries n).deliveryKey = some ""
    · rw [Undisturbed, if_pos hempty] at hundisturbed
      exact hundisturbed
    · have hsound := h.sound n
      rw [hphase] at hsound
      exact hsound hempty
  | send hphase hreceiving => exact h.send hphase
  | drop hphase hreceiving =>
    have hopen : s.receiving = true := hundisturbed
    rw [hreceiving] at hopen
    cases hopen
  | worker => exact ⟨h.sound, h.owner, h.row, h.sender, h.once, h.grows, h.fresh⟩

end Accepts

end Steps

section Requests

variable {sha256Hex : List UInt8 → String} {fromSlice : List UInt8 → Option Json}
  {requests : ℕ → IngestRequest}

/-- **Each delivery is accepted exactly once**, over every run of undisturbed steps: no request is
answered with an error; one without a key, or with an empty one, is accepted; a request that is
accepted has a new row in the table, and its id is sent to the worker, once; every new row is that
of one request, which is accepted or still has to send it; and of the requests with a key that is in
the table, all but the one whose row it is are answered with that row. -/
theorem ingress_accepts_once {table : DeliveryTable} {receiving : Bool} {s : IngressRun}
    {es : List IngressEvent}
    (hrun : Run
      (fun s e t =>
        IngressStep (fun n => (requests n).delivery sha256Hex fromSlice) s e t ∧
          Undisturbed (fun n => (requests n).delivery sha256Hex fromSlice) s e)
      (.start table receiving) es s) :
    (∀ n answer, s.phase n = .answered answer → answer ≠ .internalError) ∧
    (∀ n answer, s.phase n = .answered answer →
      ((requests n).deliveryKey sha256Hex fromSlice).getD "" = "" →
      ∃ id, answer = .accepted id) ∧
    (∀ n id, s.phase n = .answered (.accepted id) → s.sent.count id = 1 ∧
      ⟨(requests n).delivery sha256Hex fromSlice, id⟩ ∈ s.table.rows ∧
      ∀ d ∈ table.rows, d.id ≠ id) ∧
    (∀ n id, s.phase n = .answered (.deduplicated id) → ∃ d ∈ s.table.rows, d.id = id ∧
      SameKey d.toNewDelivery ((requests n).delivery sha256Hex fromSlice)) ∧
    (∀ d ∈ s.table.rows, d ∉ table.rows →
      ∃ n, d.toNewDelivery = (requests n).delivery sha256Hex fromSlice ∧
        (s.phase n = .inserted d.id ∨
          s.phase n = .answered (.accepted d.id) ∧ s.sent.count d.id = 1) ∧
        ∀ m, (s.phase m).rowId = some d.id → m = n) ∧
    (∀ d ∈ s.table.rows, ∀ n answer,
      SameKey d.toNewDelivery ((requests n).delivery sha256Hex fromSlice) →
      s.phase n = .answered answer → answer = .accepted d.id ∨ answer = .deduplicated d.id) ∧
    ∀ d ∈ s.table.rows, ∀ d' ∈ s.table.rows,
      SameKey d.toNewDelivery d'.toNewDelivery → d = d' := by
  have h : Accepts (fun n => (requests n).delivery sha256Hex fromSlice) table s := by
    refine hrun.invariant (P := Accepts _ table) (fun _ _ _ hs hstep => ?_) (Accepts.start _)
    exact hs.step hstep.1 hstep.2
  have hsound (n : ℕ) {phase : RequestPhase} (hphase : s.phase n = phase) :
      phase.Sound s ((requests n).delivery sha256Hex fromSlice) := hphase ▸ h.sound n
  refine ⟨?_, ?_, ?_, fun n id hanswer => (hsound n hanswer).2, ?_, ?_,
    fun d hd d' hd' => DeliveryTable.eq_of_sameKey hd hd'⟩
  · rintro n answer hanswer rfl
    exact hsound n hanswer
  · intro n answer hanswer hempty
    cases answer with
    | accepted id => exact ⟨id, rfl⟩
    | deduplicated id => exact absurd hempty (hsound n hanswer).1
    | internalError => exact (hsound n hanswer).elim
  · intro n id haccepted
    obtain ⟨hrow, hsent⟩ := hsound n haccepted
    refine ⟨List.count_eq_one_of_mem h.once hsent, hrow, fun d hd => ?_⟩
    exact ((table.fresh d hd).trans_le (h.fresh n id (by rw [haccepted]; rfl))).ne
  · intro d hd hnew
    obtain ⟨n, hn, hid⟩ := (h.row d hd).resolve_left hnew
    refine ⟨n, hn, ?_, fun m hm => h.owner m n d.id hm hid⟩
    cases hphase : s.phase n with
    | arrived | checked => rw [hphase] at hid; cases hid
    | inserted id =>
      rw [hphase] at hid
      cases hid
      exact .inl rfl
    | answered answer =>
      rw [hphase] at hid
      cases answer with
      | accepted id =>
        cases hid
        exact .inr ⟨rfl, List.count_eq_one_of_mem h.once (hsound n hphase).2⟩
      | deduplicated _ | internalError => cases hid
  · intro d hd n answer hsame hanswer
    cases answer with
    | accepted id =>
      have hrow := (hsound n hanswer).1
      rw [DeliveryTable.eq_of_sameKey hd hrow hsame]
      exact .inl rfl
    | deduplicated id =>
      obtain ⟨-, row, hrow, rfl, hrow'⟩ := hsound n hanswer
      rw [DeliveryTable.eq_of_sameKey hd hrow (hsame.trans hrow'.symm)]
      exact .inr rfl
    | internalError => exact (hsound n hanswer).elim

end Requests

/-! ## Runs -/

def emptyDeliveries : DeliveryTable := ⟨[], 1, .nil, nofun, .nil⟩

/-- A request to the first webhook, of the generic profile, with this idempotency key. -/
def withIdempotencyKey (key : String) : IngestRequest :=
  ⟨1, "generic", [("idempotency-key", some key)], [], "2026-04-07T00:00:00Z"⟩

def withoutKey : IngestRequest := ⟨1, "generic", [], [], "2026-04-07T00:00:00Z"⟩

/-- The first and the second request have the same key, the others have none. -/
def repeatedRequests : ℕ → IngestRequest
  | 0 | 1 => withIdempotencyKey "a"
  | _ => withoutKey

def repeatedDeliveries (n : ℕ) : NewDelivery :=
  (repeatedRequests n).delivery (fun _ => "") fun _ => none

/-- The second request looks for its key while the first one has inserted its row and not sent it,
and the worker is there only when the first id is sent. -/
def repeatedEvents : List IngressEvent :=
  [.check 0, .check 2, .insert 0, .check 1, .insert 2, .worker true, .send 2, .send 0]

theorem ingress_accepts_once_repeated : ∃ s : IngressRun,
    Run (fun s e t => IngressStep repeatedDeliveries s e t ∧ Undisturbed repeatedDeliveries s e)
      (.start emptyDeliveries false) repeatedEvents s ∧
    s.phase 0 = .answered (.accepted 1) ∧ s.phase 1 = .answered (.deduplicated 1) ∧
    s.sent.count 1 = 1 := by
  have hrun : ∃ s : IngressRun,
      Run (fun s e t => IngressStep repeatedDeliveries s e t ∧ Undisturbed repeatedDeliveries s e)
        (.start emptyDeliveries false) repeatedEvents s ∧
      s.phase 0 = .answered (.accepted 1) ∧ ∃ answer, s.phase 1 = .answered answer := by
    have hfirst : Undisturbed repeatedDeliveries
        (((IngressRun.start emptyDeliveries false).setPhase 0 .checked).setPhase 2 .checked)
        (.insert 0) := by
      intro m hm hsame
      match m with
      | 0 => exact absurd rfl hm
      | 1 => exact nofun
      | m + 2 => exact absurd hsame.2.1 Bool.false_ne_true
    have hkeyless : ∀ m, ¬SameKey (repeatedDeliveries m) (repeatedDeliveries 2) := by
      rintro m ⟨-, hsome, hkey⟩
      rw [hkey] at hsome
      cases hsome
    exact ⟨_, .cons ⟨.check rfl (by decide), trivial⟩ <| .cons ⟨.check rfl (by decide), trivial⟩ <|
      .cons ⟨.insert rfl rfl, hfirst⟩ <|
      .cons ⟨.deduplicate rfl (show _ = some 1 by decide), trivial⟩ <|
      .cons ⟨.insert rfl rfl, fun m _ hsame => absurd hsame (hkeyless m)⟩ <|
      .cons ⟨.worker, trivial⟩ <| .cons ⟨.send rfl rfl, rfl⟩ <|
      .cons ⟨.send rfl rfl, rfl⟩ <| .nil _, rfl, _, rfl⟩
  obtain ⟨s, hrun, haccepted, answer, hanswer⟩ := hrun
  obtain ⟨-, -, hsent, -, hnew, hothers, -⟩ := ingress_accepts_once hrun
  obtain ⟨hcount, hrow, -⟩ := hsent 0 1 haccepted
  obtain ⟨n, -, -, hone⟩ := hnew _ hrow List.not_mem_nil
  refine ⟨s, hrun, haccepted, ?_, hcount⟩
  rcases hothers _ hrow 1 answer (by decide) hanswer with rfl | rfl
  · have h0 := hone 0 (by rw [haccepted]; rfl)
    have h1 := hone 1 (by rw [hanswer]; rfl)
    exact absurd (h0.trans h1.symm) (by decide)
  · exact hanswer

/-- Two requests with one key have both looked for it before one of them inserts its row; and of
two requests with an empty key, one after the other, the second is refused. -/
theorem ingress_answers_error :
    (∃ s : IngressRun,
      Run (IngressStep repeatedDeliveries) (.start emptyDeliveries true)
        [.check 0, .check 1, .insert 0, .send 0, .insert 1] s ∧
      s.phase 1 = .answered .internalError) ∧
    ∃ s : IngressRun,
      Run (IngressStep fun _ => (withIdempotencyKey "").delivery (fun _ => "") fun _ => none)
        (.start emptyDeliveries true)
        [.check 0, .insert 0, .send 0, .check 1, .insert 1] s ∧
      s.phase 1 = .answered .internalError := by
  constructor
  · exact ⟨_, .cons (.check rfl (by decide)) <| .cons (.check rfl (by decide)) <|
      .cons (.insert rfl rfl) <| .cons (.send rfl rfl) <| .cons (.refuse rfl (by decide)) <|
      .nil _, rfl⟩
  · exact ⟨_, .cons (.check rfl (by decide)) <| .cons (.insert rfl rfl) <| .cons (.send rfl rfl) <|
      .cons (.check rfl (by decide)) <| .cons (.refuse rfl (by decide)) <| .nil _, rfl⟩

end Chelix.Webhooks
