import Chelix.Library.Lists
import Chelix.Tools.TaskList

/-!
# The task lists on disk and in memory

Whatever the order of the steps, a list that no call is about to write is in its file as it is in
memory, as long as no write fails and every list id is a name.

* **`tasks_kept`**: durability, refusals, claims and files in every run of such steps.
-/

namespace Chelix.Tools

open Chelix.Library List TaskState OrderedMap
open Chelix.Library.Path (Component Segment resolve)

variable {codec : TaskListCodec} {store : TaskStore}

/-! ## Files -/

def PlainId (listId : String) : Prop := '/' ∉ listId.toList

variable {listId : String}

theorem segment_fileName (h : PlainId listId) :
    Segment (listId ++ ".json").toList where
  noSlash := by
    rw [String.toList_append, mem_append, not_or]
    exact ⟨h, by decide⟩
  component := by
    have hlength : 5 ≤ (listId ++ ".json").toList.length := by
      rw [String.toList_append, length_append]
      exact Nat.le_add_left 5 _
    have hshort : ∀ short : List Char, short.length < 5 → (listId ++ ".json").toList ≠ short := by
      rintro short hlt rfl
      omega
    unfold Path.segmentComponent
    rw [if_neg (not_or.mpr ⟨hshort _ (by decide), hshort _ (by decide)⟩),
      if_neg (hshort _ (by decide))]

theorem resolve_filePath (h : PlainId listId) :
    resolve (store.filePath listId) =
      resolve store.dataDir ++ [.normal (listId ++ ".json").toList] :=
  Path.resolve_join _ (segment_fileName h)

theorem resolve_filePath_inj {listId' : String} (h : PlainId listId) (h' : PlainId listId')
    (heq : resolve (store.filePath listId) = resolve (store.filePath listId')) :
    listId = listId' := by
  rw [resolve_filePath h, resolve_filePath h'] at heq
  have hlast := append_cancel_left heq
  simp only [List.cons.injEq, Component.normal.injEq, and_true, String.toList_append] at hlast
  exact String.toList_inj.mp (append_cancel_right hlast)

theorem not_filePath_isPrefix (h : PlainId listId) :
    ¬resolve (store.filePath listId) <+: resolve store.dataDir := by
  intro hprefix
  have hle := hprefix.length_le
  rw [resolve_filePath h, length_append, length_singleton] at hle
  omega

variable {disk : Disk}

theorem load_congr {disk' : Disk} (hgrounded : disk.Grounded) (hgrounded' : disk'.Grounded)
    (h : disk' (resolve (store.filePath listId)) = disk (resolve (store.filePath listId))) :
    store.load codec disk' false listId = store.load codec disk false listId := by
  unfold TaskStore.load
  rw [hgrounded'.lookup, hgrounded.lookup, h]

/-- A list that is written is loaded again, and the other files are as they were. -/
structure Persisted (codec : TaskListCodec) (store : TaskStore) (disk disk' : Disk)
    (listId : String) (list : TaskList) : Prop where
  grounded : disk'.Grounded
  loaded : store.load codec disk' false listId = .ok list
  others : ∀ other, PlainId other → other ≠ listId →
    store.load codec disk' false other = store.load codec disk false other
  places : ∀ place, disk' place ≠ disk place →
    place = resolve (store.filePath listId) ∨ place <+: resolve store.dataDir

variable {lists : TaskLists}

theorem persist_ok {disk' : Disk} {fault : WriteFault} {list : TaskList} (hgrounded : disk.Grounded)
    (hplain : PlainId listId) (hlist : lists[listId]? = some list)
    (hcodec : codec.fromStr (codec.toStringPretty list) = some list)
    (h : store.persist codec disk fault lists listId = (.ok (), disk')) :
    Persisted codec store disk disk' listId list := by
  unfold TaskStore.persist at h
  simp only [hlist] at h
  cases hcreate : disk.createDirAll store.dataDir with
  | error e =>
    simp only [hcreate] at h
    cases h
  | ok created =>
    simp only [hcreate] at h
    have hcreated := hgrounded.createDirAll hcreate
    cases fault with
    | unopened => cases h
    | cut written =>
      cases hwrite : created.write (store.filePath listId) written with
      | error e | ok disk =>
        simp only [hwrite] at h
        cases h
    | none =>
      cases hwrite : created.write (store.filePath listId) (codec.toStringPretty list) with
      | error e =>
        simp only [hwrite] at h
        cases h
      | ok written =>
        simp only [hwrite] at h
        obtain rfl : written = disk' := congrArg Prod.snd h
        have hwritten := hcreated.write hwrite
        have hget : ∀ place, written place =
            if place = resolve (store.filePath listId) then
              some (.file (codec.toStringPretty list))
            else if place <+: resolve store.dataDir ∧ place ≠ [] then some .dir
            else disk place := by
          intro place
          rw [Disk.get_write hwrite, Disk.get_createDirAll hcreate]
        refine ⟨hwritten, ?_, fun other hother hne => ?_, fun place hchanged => ?_⟩
        · unfold TaskStore.load
          rw [hwritten.lookup, hget, if_pos rfl]
          simp only [Bool.false_eq_true, if_false, hcodec]
        · refine load_congr hgrounded hwritten ?_
          rw [hget, if_neg fun heq => hne (resolve_filePath_inj hother hplain heq),
            if_neg fun hprefix => not_filePath_isPrefix hother hprefix.1]
        · rw [hget] at hchanged
          split at hchanged
          · next heq => exact .inl heq
          · split at hchanged
            · next hprefix => exact .inr hprefix.1
            · exact absurd rfl hchanged

/-! ## Steps -/

/-- The condition on a step: list ids are names, no write fails, and what is written can be read
back. -/
structure Orderly (codec : TaskListCodec) (s : TaskState) (event : TaskEvent) : Prop where
  plain : ∀ operation, event.action = .start operation → PlainId operation.listId
  written : ∀ fault, event.action = .write fault → ∀ e, event.outcome ≠ some (.error e)
  readBack : ∀ fault operation task list, event.action = .write fault →
    s.calls event.call = some ⟨operation, .writing task⟩ →
    s.lists[operation.listId]? = some list →
    codec.fromStr (codec.toStringPretty list) = some list

def OrderlyStep (codec : TaskListCodec) (store : TaskStore) (s : TaskState) (event : TaskEvent)
    (t : TaskState) : Prop :=
  TaskStep codec store s event t ∧ Orderly codec s event

/-- A call whose list ids are names. -/
structure TaskCall.Plain (call : TaskCall) : Prop where
  operation : PlainId call.operation.listId
  rest : ∀ rest, call.phase = .loading rest → ∀ listId ∈ rest, PlainId listId

/-- A call is between changing a list and writing it. -/
def TaskState.Writes (s : TaskState) (n : ℕ) (listId : String) : Prop :=
  ∃ operation task, s.calls n = some ⟨operation, .writing task⟩ ∧ operation.listId = listId

/-- **What holds between steps.** -/
structure TaskInv (codec : TaskListCodec) (store : TaskStore) (s : TaskState) : Prop where
  grounded : s.disk.Grounded
  held : ∀ listId list, s.lists[listId]? = some list → PlainId listId
  calls : ∀ n call, s.calls n = some call → call.Plain
  durable : ∀ listId list, s.lists[listId]? = some list → (∀ n, ¬s.Writes n listId) →
    store.load codec s.disk false listId = .ok list

/-- The change of a list by an operation. -/
def TaskOperation.change (now : ℕ) (list : TaskList) :
    TaskOperation → Except TaskError (Task × TaskList)
  | .create listId subject description => .ok (list.create now listId subject description)
  | .update _ taskId change => list.update now taskId change
  | .claim _ taskId owner => list.claim now taskId owner
  | operation => .error (.missingList operation.listId)

/-- **What a step does** to the disk, the lists and the call. -/
inductive TaskEffect (codec : TaskListCodec) (store : TaskStore) (s : TaskState) (n : ℕ) :
    Option (Except TaskError TaskReply) → TaskState → Prop
  /-- Nothing but that the call goes on or returns. -/
  | quiet {outcome} (operation : TaskOperation) (phase : Phase) :
      TaskCall.Plain ⟨operation, phase⟩ → (∀ task, phase ≠ .writing task) →
      (∀ other task, s.calls n ≠ some ⟨other, .writing task⟩) →
      (∀ other, s.calls n ≠ some ⟨other, .returned⟩) →
      (outcome ≠ none → phase = .returned) →
      TaskEffect codec store s n outcome (s.setCall n operation phase)
  /-- A list is loaded. -/
  | loaded (operation : TaskOperation) (listId : String) (rest : List String)
      (lists : TaskLists) (readFails : Bool) :
      s.calls n = some ⟨operation, .loading (listId :: rest)⟩ →
      store.ensureList codec s.disk readFails s.lists listId = .ok lists →
      TaskEffect codec store s n none
        ({ s with lists }.setCall n operation (.loading rest))
  /-- A list is changed. -/
  | changed (operation : TaskOperation) (now : ℕ) (list : TaskList) (task : Task)
      (after : TaskList) :
      s.calls n = some ⟨operation, .loading []⟩ → s.lists[operation.listId]? = some list →
      operation.change now list = .ok (task, after) →
      TaskEffect codec store s n none
        ({ s with lists := s.lists.insert operation.listId after }.setCall n operation
          (.writing task))
  /-- A list is written. -/
  | written (operation : TaskOperation) (task : Task) (fault : WriteFault) (disk : Disk) :
      s.calls n = some ⟨operation, .writing task⟩ →
      store.persist codec s.disk fault s.lists operation.listId = (.ok (), disk) →
      (∀ list, s.lists[operation.listId]? = some list →
        codec.fromStr (codec.toStringPretty list) = some list) →
      TaskEffect codec store s n (some (.ok (.task task)))
        ({ s with disk }.setCall n operation .returned)

theorem plain_stemOf {names : List FileName} (h : listId ∈ names.filterMap stemOf) :
    PlainId listId := by
  obtain ⟨name, -, hstem⟩ := mem_filterMap.mp h
  unfold stemOf at hstem
  split at hstem
  · obtain rfl := Option.some.inj hstem
    unfold PlainId
    rw [String.toList_ofList]
    exact fun hmem => name.2 (mem_of_mem_take hmem)
  · cases hstem

variable {operation : TaskOperation}

theorem plain_firstPhase (h : PlainId operation.listId) :
    TaskCall.Plain ⟨operation, firstPhase operation⟩ where
  operation := h
  rest rest hphase listId hmem := by
    have hsingle : rest = [operation.listId] := by
      cases operation with
      | list id filter =>
        change (if id = "*" then Phase.scanning else .loading [id]) = .loading rest at hphase
        split at hphase
        · cases hphase
        · exact (Phase.loading.inj hphase).symm
      | create id subject description | update id taskId change | claim id taskId owner
      | get id taskId => exact (Phase.loading.inj hphase).symm
    rw [hsingle, mem_singleton] at hmem
    rw [hmem]
    exact h

theorem firstPhase_ne_writing (operation : TaskOperation) (task : Task) :
    firstPhase operation ≠ .writing task := by
  intro h
  cases operation with
  | list id filter =>
    change (if id = "*" then Phase.scanning else .loading [id]) = _ at h
    split at h <;> cases h
  | create id subject description | update id taskId change | claim id taskId owner
  | get id taskId => cases h

variable {event : TaskEvent}

section Effects

variable {s t : TaskState} {n : ℕ} {outcome : Option (Except TaskError TaskReply)}

theorem effect_quiet (hinv : TaskInv codec store s) {phase : Phase}
    (hcall : s.calls n = some ⟨operation, phase⟩) (hwriting : ∀ task, phase ≠ .writing task)
    (hreturned : phase ≠ .returned) {next : Phase} (hnext : ∀ rest, next ≠ .loading rest)
    (hnot : ∀ task, next ≠ .writing task) (houtcome : outcome ≠ none → next = .returned) :
    TaskEffect codec store s n outcome (s.setCall n operation next) := by
  refine .quiet operation next ⟨(hinv.calls n _ hcall).operation, fun rest h => ?_⟩ hnot
    (fun other task h => ?_) (fun other h => ?_) houtcome
  · exact absurd h (hnext rest)
  · rw [hcall] at h
    exact hwriting task (congrArg TaskCall.phase (Option.some.inj h))
  · rw [hcall] at h
    exact hreturned (congrArg TaskCall.phase (Option.some.inj h))

theorem effect_finish (hinv : TaskInv codec store s) {phase : Phase}
    (hcall : s.calls n = some ⟨operation, phase⟩) (hwriting : ∀ task, phase ≠ .writing task)
    (hreturned : phase ≠ .returned) {result : Except TaskError TaskReply}
    (h : s.finish n operation result = (outcome, t)) : TaskEffect codec store s n outcome t := by
  obtain ⟨rfl, rfl⟩ := Prod.ext_iff.mp h
  refine effect_quiet hinv hcall hwriting hreturned ?_ ?_ fun _ => rfl
  · exact fun rest => Phase.noConfusion
  · exact fun task => Phase.noConfusion

theorem effect_act (hinv : TaskInv codec store s) {now : ℕ}
    (hcall : s.calls n = some ⟨operation, .loading []⟩)
    (h : s.act store n now operation = (outcome, t)) : TaskEffect codec store s n outcome t := by
  have hwriting : ∀ task, Phase.loading [] ≠ .writing task := fun task => Phase.noConfusion
  have hreturned : Phase.loading [] ≠ .returned := Phase.noConfusion
  have hchange : ∀ result : TaskList → Except TaskError (Task × TaskList),
      (∀ list, operation.change now list = result list) →
      s.change n operation result = (outcome, t) → TaskEffect codec store s n outcome t := by
    intro result hresult h
    unfold change at h
    cases hlist : s.lists[operation.listId]? with
    | none =>
      simp only [hlist] at h
      exact effect_finish hinv hcall hwriting hreturned h
    | some list =>
      simp only [hlist] at h
      rcases hdone : result list with e | ⟨task, after⟩
      · simp only [hdone] at h
        exact effect_finish hinv hcall hwriting hreturned h
      · simp only [hdone] at h
        obtain ⟨rfl, rfl⟩ := Prod.ext_iff.mp h
        exact .changed operation now list task after hcall hlist ((hresult list).trans hdone)
  cases operation with
  | create listId subject description | update listId taskId change
  | claim listId taskId owner => exact hchange _ (fun list => rfl) h
  | get listId taskId =>
    unfold act at h
    cases hlist : s.lists[listId]? with
    | none | some list =>
      simp only [hlist] at h
      exact effect_finish hinv hcall hwriting hreturned h
  | list listId filter =>
    unfold act at h
    by_cases hall : listId = "*"
    · simp only [if_pos hall] at h
      obtain ⟨rfl, rfl⟩ := Prod.ext_iff.mp h
      refine effect_quiet hinv hcall hwriting hreturned ?_ ?_ fun hnone => absurd rfl hnone
      · exact fun rest => Phase.noConfusion
      · exact fun task => Phase.noConfusion
    · simp only [if_neg hall] at h
      cases hlist : s.lists[listId]? with
      | none | some list =>
        simp only [hlist] at h
        exact effect_finish hinv hcall hwriting hreturned h

theorem step_effect (hinv : TaskInv codec store s) (hstep : OrderlyStep codec store s event t) :
    TaskEffect codec store s event.call event.outcome t := by
  obtain ⟨hstep, horderly⟩ := hstep
  obtain ⟨n, action, outcome⟩ := event
  change s.step codec store n action = some (outcome, t) at hstep
  change TaskEffect codec store s n outcome t
  unfold step at hstep
  split at hstep
  · next _ operation hcall =>
    obtain ⟨rfl, rfl⟩ := Prod.ext_iff.mp (Option.some.inj hstep)
    have hplain := horderly.plain operation rfl
    refine .quiet operation _ (plain_firstPhase hplain) (firstPhase_ne_writing operation) ?_ ?_
      fun hnone => absurd rfl hnone
    · exact fun other task h => by simp [hcall] at h
    · exact fun other h => by simp [hcall] at h
  · next _ names operation hcall =>
    have hwriting : ∀ task, Phase.scanning ≠ .writing task := fun task => Phase.noConfusion
    cases names with
    | none => exact effect_finish hinv hcall hwriting Phase.noConfusion (Option.some.inj hstep)
    | some names =>
      obtain ⟨rfl, rfl⟩ := Prod.ext_iff.mp (Option.some.inj hstep)
      refine .quiet operation _ ⟨(hinv.calls n _ hcall).operation, ?_⟩ ?_ ?_ ?_
        fun hnone => absurd rfl hnone
      · intro rest hrest listId hmem
        obtain rfl := Phase.loading.inj hrest
        exact plain_stemOf hmem
      · exact fun task => Phase.noConfusion
      · exact fun other task h => by simp [hcall] at h
      · exact fun other h => by simp [hcall] at h
  · next _ readFails operation listId rest hcall =>
    have hwriting : ∀ task, Phase.loading (listId :: rest) ≠ .writing task :=
      fun task => Phase.noConfusion
    cases hensure : store.ensureList codec s.disk readFails s.lists listId with
    | error e =>
      simp only [hensure] at hstep
      exact effect_finish hinv hcall hwriting Phase.noConfusion (Option.some.inj hstep)
    | ok lists =>
      simp only [hensure] at hstep
      obtain ⟨rfl, rfl⟩ := Prod.ext_iff.mp (Option.some.inj hstep)
      exact .loaded operation listId rest lists readFails hcall hensure
  · next _ now operation hcall => exact effect_act hinv hcall (Option.some.inj hstep)
  · next _ fault operation task hcall =>
    rcases hpersist : store.persist codec s.disk fault s.lists operation.listId with
      ⟨e | done, disk⟩
    · simp only [hpersist] at hstep
      obtain ⟨rfl, rfl⟩ := Prod.ext_iff.mp (Option.some.inj hstep)
      exact absurd rfl (horderly.written fault rfl e)
    · simp only [hpersist] at hstep
      obtain ⟨rfl, rfl⟩ := Prod.ext_iff.mp (Option.some.inj hstep)
      exact .written operation task fault disk hcall hpersist fun list hlist =>
        horderly.readBack fault operation task list rfl hcall hlist
  · next _ listId filter ids hcall =>
    refine effect_finish hinv hcall ?_ Phase.noConfusion (Option.some.inj hstep)
    exact fun task => Phase.noConfusion
  · cases hstep

end Effects

/-! ## Between steps -/

/-- The list in memory, or the one in its file if it is not loaded. -/
def TaskState.view (codec : TaskListCodec) (store : TaskStore) (s : TaskState) (listId : String) :
    Except TaskError TaskList :=
  match s.lists[listId]? with
  | some list => .ok list
  | none => store.load codec s.disk false listId

theorem ensureList_get {readFails : Bool} {lists' : TaskLists}
    (h : store.ensureList codec disk readFails lists listId = .ok lists') (other : String) :
    lists'[other]? = lists[other]? ∨
      other = listId ∧ lists[other]? = none ∧ ∃ list, lists'[other]? = some list ∧
        store.load codec disk false listId = .ok list := by
  unfold TaskStore.ensureList at h
  split at h
  · obtain rfl := Except.ok.inj h
    exact .inl rfl
  · next hmissing =>
    cases hload : store.load codec disk readFails listId with
    | error e =>
      rw [hload] at h
      cases h
    | ok list =>
      rw [hload] at h
      obtain rfl := Except.ok.inj h
      by_cases heq : listId = other
      · subst heq
        refine .inr ⟨rfl, ?_, list, get_insert_self _ _ _, ?_⟩
        · rw [contains_eq_isSome] at hmissing
          exact Option.not_isSome_iff_eq_none.mp hmissing
        · unfold TaskStore.load at hload ⊢
          split at hload
          · exact hload
          · cases hload
          · split at hload
            · cases hload
            · exact hload
      · exact .inl (get_insert_of_ne _ heq _)

theorem persist_missing {fault : WriteFault} (h : lists[listId]? = none) :
    store.persist codec disk fault lists listId = (.ok (), disk) := by
  unfold TaskStore.persist
  simp only [h]

variable {m : ℕ}

section Calls

variable {s : TaskState} {n : ℕ} {operation : TaskOperation} {phase : Phase}

theorem calls_setCall_self (s : TaskState) (n : ℕ) (operation : TaskOperation) (phase : Phase) :
    (s.setCall n operation phase).calls n = some ⟨operation, phase⟩ := if_pos rfl

theorem calls_setCall_of_ne (h : m ≠ n) :
    (s.setCall n operation phase).calls m = s.calls m := if_neg h

theorem writes_setCall (hwriting : ∀ other task, s.calls n ≠ some ⟨other, .writing task⟩)
    (h : s.Writes m listId) : (s.setCall n operation phase).Writes m listId := by
  obtain ⟨other, task, hcall, hid⟩ := h
  have hne : m ≠ n := by
    rintro rfl
    exact hwriting other task hcall
  exact ⟨other, task, (calls_setCall_of_ne hne).trans hcall, hid⟩

theorem plain_setCall (hcalls : ∀ n call, s.calls n = some call → call.Plain)
    (hplain : TaskCall.Plain ⟨operation, phase⟩) (m : ℕ) (call : TaskCall)
    (h : (s.setCall n operation phase).calls m = some call) : call.Plain := by
  by_cases heq : m = n
  · subst heq
    rw [calls_setCall_self] at h
    obtain rfl := Option.some.inj h
    exact hplain
  · rw [calls_setCall_of_ne heq] at h
    exact hcalls m call h

theorem ne_writing_of_loading {ids : List String}
    (h : s.calls n = some ⟨operation, .loading ids⟩) (other : TaskOperation) (task : Task) :
    s.calls n ≠ some ⟨other, .writing task⟩ := by
  rw [h]
  intro heq
  exact Phase.noConfusion (congrArg TaskCall.phase (Option.some.inj heq))

theorem plain_returned (h : PlainId operation.listId) : TaskCall.Plain ⟨operation, .returned⟩ :=
  ⟨h, fun _ h => Phase.noConfusion h⟩

end Calls

variable {s t : TaskState} {n : ℕ}

/-- **A step keeps what holds between steps.** -/
theorem TaskInv.effect {outcome : Option (Except TaskError TaskReply)}
    (hinv : TaskInv codec store s) (h : TaskEffect codec store s n outcome t) :
    TaskInv codec store t := by
  cases h with
  | quiet operation phase hplain _ hwriting _ _ =>
    exact ⟨hinv.grounded, hinv.held, plain_setCall hinv.calls hplain,
      fun listId list hlist hnone => hinv.durable listId list hlist fun m hwrites =>
        hnone m (writes_setCall hwriting hwrites)⟩
  | loaded operation listId rest lists readFails hcall hensure =>
    have hplain := hinv.calls n _ hcall
    have hwriting := ne_writing_of_loading hcall
    refine ⟨hinv.grounded, fun other list hlist => ?_, plain_setCall hinv.calls ⟨hplain.operation,
      fun ids hids id hmem => ?_⟩, fun other list hlist hnone => ?_⟩
    · rcases ensureList_get hensure other with hsame | ⟨rfl, -, -⟩
      · exact hinv.held other list (hsame.symm.trans hlist)
      · exact hplain.rest _ rfl _ mem_cons_self
    · obtain rfl := Phase.loading.inj hids
      exact hplain.rest _ rfl id (mem_cons_of_mem _ hmem)
    · rcases ensureList_get hensure other with hsame | ⟨rfl, -, list', hlist', hload⟩
      · exact hinv.durable other list (hsame.symm.trans hlist) fun m hwrites =>
          hnone m (writes_setCall hwriting hwrites)
      · obtain rfl := Option.some.inj (hlist'.symm.trans hlist)
        exact hload
  | changed operation now list task after hcall hlist hchange =>
    have hplain := (hinv.calls n _ hcall).operation
    refine ⟨hinv.grounded, fun other list' hlist' => ?_, plain_setCall hinv.calls ⟨hplain,
      fun _ h => Phase.noConfusion h⟩, fun other list' hlist' hnone => ?_⟩
    · by_cases heq : operation.listId = other
      · exact heq ▸ hplain
      · exact hinv.held other list' ((get_insert_of_ne _ heq _).symm.trans hlist')
    · by_cases heq : operation.listId = other
      · exact absurd ⟨operation, task, calls_setCall_self _ n operation _, heq⟩ (hnone n)
      · exact hinv.durable other list' ((get_insert_of_ne _ heq _).symm.trans hlist')
          fun m hwrites => hnone m (writes_setCall (ne_writing_of_loading hcall) hwrites)
  | written operation task fault disk hcall hpersist hcodec =>
    have hplain := (hinv.calls n _ hcall).operation
    have hothers : ∀ {m listId}, s.Writes m listId → operation.listId ≠ listId →
        ({ s with disk }.setCall n operation .returned).Writes m listId := by
      rintro m listId ⟨other, task', hother, rfl⟩ hne
      have hm : m ≠ n := by
        rintro rfl
        rw [hcall] at hother
        exact hne (congrArg (·.operation.listId) (Option.some.inj hother))
      exact ⟨other, task', (calls_setCall_of_ne hm).trans hother, rfl⟩
    cases hlist : s.lists[operation.listId]? with
    | none =>
      rw [persist_missing hlist] at hpersist
      obtain rfl := congrArg Prod.snd hpersist
      refine ⟨hinv.grounded, hinv.held, plain_setCall hinv.calls (plain_returned hplain),
        fun listId list hheld hnone => hinv.durable listId list hheld fun m hwrites =>
          hnone m (hothers hwrites ?_)⟩
      rintro rfl
      cases hlist.symm.trans hheld
    | some list =>
      have hpersisted := persist_ok hinv.grounded hplain hlist (hcodec list hlist) hpersist
      refine ⟨hpersisted.grounded, hinv.held, plain_setCall hinv.calls (plain_returned hplain),
        fun listId list' hheld hnone => ?_⟩
      by_cases heq : operation.listId = listId
      · subst heq
        obtain rfl := Option.some.inj (hlist.symm.trans hheld)
        exact hpersisted.loaded
      · refine (hpersisted.others listId (hinv.held _ _ hheld) (Ne.symm heq)).trans ?_
        exact hinv.durable listId list' hheld fun m hwrites => hnone m (hothers hwrites heq)

/-! ## Refusals -/

/-- A call that has changed a list, or has returned. -/
def Settled (s : TaskState) (n : ℕ) : Prop :=
  ∃ operation, (∃ task, s.calls n = some ⟨operation, .writing task⟩) ∨
    s.calls n = some ⟨operation, .returned⟩

def Returned (s : TaskState) (n : ℕ) : Prop := ∃ operation, s.calls n = some ⟨operation, .returned⟩

section Effects

variable {s t : TaskState} {n : ℕ} {outcome : Option (Except TaskError TaskReply)}

theorem TaskEffect.calls_of_ne (h : TaskEffect codec store s n outcome t) (hne : m ≠ n) :
    t.calls m = s.calls m := by
  cases h with
  | quiet operation phase _ _ _ _ _ | loaded operation listId rest lists readFails _ _
  | changed operation now list task after _ _ _ | written operation task fault disk _ _ _ =>
    exact calls_setCall_of_ne hne

theorem TaskEffect.not_returned (h : TaskEffect codec store s n outcome t) : ¬Returned s n := by
  rintro ⟨other, hother⟩
  cases h with
  | quiet operation phase _ _ _ hreturned _ => exact hreturned other hother
  | loaded operation listId rest lists readFails hcall _
  | changed operation now list task after hcall _ _
  | written operation task fault disk hcall _ _ =>
    exact Phase.noConfusion (congrArg TaskCall.phase (Option.some.inj (hcall.symm.trans hother)))

theorem TaskEffect.same_or_settled (h : TaskEffect codec store s n outcome t) :
    (t.disk = s.disk ∧ ∀ listId, t.view codec store listId = s.view codec store listId) ∨
      Settled t n ∧ ∀ e, outcome ≠ some (.error e) := by
  cases h with
  | quiet operation phase _ _ _ _ _ => exact .inl ⟨rfl, fun _ => rfl⟩
  | loaded operation listId rest lists readFails _ hensure =>
    refine .inl ⟨rfl, fun other => ?_⟩
    have hview : ∀ state : TaskState, state.view codec store other =
        match state.lists[other]? with
        | some list => .ok list
        | none => store.load codec state.disk false other := fun _ => rfl
    rw [hview, hview]
    change (match lists[other]? with
      | some list => Except.ok list
      | none => store.load codec s.disk false other) = _
    rcases ensureList_get hensure other with hsame | ⟨rfl, hmissing, list, hlist, hload⟩
    · rw [hsame]
    · rw [hmissing, hlist]
      exact hload.symm
  | changed operation now list task after _ _ _ =>
    exact .inr ⟨⟨operation, .inl ⟨task, calls_setCall_self _ n operation _⟩⟩,
      fun e h => by cases h⟩
  | written operation task fault disk _ _ _ =>
    exact .inr ⟨⟨operation, .inr (calls_setCall_self _ n operation _)⟩,
      fun e h => by cases h⟩

theorem TaskEffect.returned_of_error (h : TaskEffect codec store s n outcome t) {e : TaskError}
    (herror : outcome = some (.error e)) : Returned t n := by
  cases h with
  | quiet operation phase _ _ _ _ houtcome =>
    obtain rfl := houtcome (by rw [herror]; exact Option.some_ne_none _)
    exact ⟨operation, calls_setCall_self s n operation _⟩
  | loaded operation listId rest lists readFails _ _
  | changed operation now list task after _ _ _ | written operation task fault disk _ _ _ =>
    cases herror

theorem TaskEffect.settled (h : TaskEffect codec store s n outcome t) (hsettled : Settled s n) :
    Settled t n ∧ ∀ e, outcome ≠ some (.error e) := by
  obtain ⟨other, ⟨task', hother⟩ | hother⟩ := hsettled
  · cases h with
    | quiet operation phase _ _ hwriting _ _ => exact absurd hother (hwriting other task')
    | loaded operation listId rest lists readFails hcall _
    | changed operation now list task after hcall _ _ =>
      exact absurd hother (ne_writing_of_loading hcall other task')
    | written operation task fault disk _ _ _ =>
      exact ⟨⟨operation, .inr (calls_setCall_self _ n operation _)⟩, fun e h => by cases h⟩
  · exact absurd ⟨other, hother⟩ h.not_returned

end Effects

section Runs

variable {s t : TaskState} {events : List TaskEvent}

theorem TaskInv.run (hinv : TaskInv codec store s)
    (hrun : Run (OrderlyStep codec store) s events t) : TaskInv codec store t :=
  hrun.invariant (fun _ _ _ hinv hstep => hinv.effect (step_effect hinv hstep)) hinv

theorem Returned.step (h : Returned s n)
    (heffect : TaskEffect codec store s event.call event.outcome t) :
    event.call ≠ n ∧ Returned t n := by
  have hne : event.call ≠ n := by
    rintro rfl
    exact heffect.not_returned h
  obtain ⟨operation, hcall⟩ := h
  exact ⟨hne, operation, (heffect.calls_of_ne hne.symm).trans hcall⟩

theorem Returned.run (h : Returned s n) (hinv : TaskInv codec store s)
    (hrun : Run (OrderlyStep codec store) s events t) : Returned t n := by
  induction hrun with
  | nil => exact h
  | cons hstep _ ih =>
    have heffect := step_effect hinv hstep
    exact ih (h.step heffect).2 (hinv.effect heffect)

theorem returned_of_failed (hinv : TaskInv codec store s)
    (hrun : Run (OrderlyStep codec store) s events t) {failed : TaskEvent} (hmem : failed ∈ events)
    {e : TaskError} (herror : failed.outcome = some (.error e)) : Returned t failed.call := by
  induction hrun with
  | nil => cases hmem
  | cons hstep hrest ih =>
    have heffect := step_effect hinv hstep
    rcases mem_cons.mp hmem with rfl | hmem
    · exact (heffect.returned_of_error herror).run (hinv.effect heffect) hrest
    · exact ih (hinv.effect heffect) hmem

theorem not_failed_of_settled (hinv : TaskInv codec store s)
    (hrun : Run (OrderlyStep codec store) s events t) (hsettled : Settled s n)
    (hmem : event ∈ events) (hcall : event.call = n) (e : TaskError) :
    event.outcome ≠ some (.error e) := by
  induction hrun with
  | nil => cases hmem
  | @cons u v w first rest hstep _ ih =>
    have heffect := step_effect hinv hstep
    have hnext : Settled v n := by
      by_cases heq : first.call = n
      · subst heq
        exact (heffect.settled hsettled).1
      · obtain ⟨operation, hphase⟩ := hsettled
        rw [← heffect.calls_of_ne (Ne.symm heq)] at hphase
        exact ⟨operation, hphase⟩
    rcases mem_cons.mp hmem with rfl | hmem
    · subst hcall
      exact (heffect.settled hsettled).2 e
    · exact ih (hinv.effect heffect) hnext hmem

end Runs

/-! ## Claims -/

/-- A step in which a call claims a task. -/
def Claims (s : TaskState) (event : TaskEvent) (t : TaskState) (listId taskId owner : String) :
    Prop :=
  s.calls event.call = some ⟨.claim listId taskId owner, .loading []⟩ ∧
    ∃ task, t.calls event.call = some ⟨.claim listId taskId owner, .writing task⟩

/-- A step in which a task is made pending, by an update or by a new task with its id. -/
def Reopens (s : TaskState) (event : TaskEvent) (listId taskId : String) : Prop :=
  (∃ change, s.calls event.call = some ⟨.update listId taskId change, .loading []⟩ ∧
    change.status = some .pending) ∨
  ∃ subject description list,
    s.calls event.call = some ⟨.create listId subject description, .loading []⟩ ∧
      s.lists[listId]? = some list ∧ toString list.nextId = taskId

/-- A task that is claimed or completed. -/
def Taken (s : TaskState) (listId taskId : String) : Prop :=
  ∃ list task, s.lists[listId]? = some list ∧ list.tasks[taskId]? = some task ∧
    task.status ≠ .pending

theorem claim_ok {now : ℕ} {list after : TaskList} {taskId owner : String} {task : Task}
    (h : list.claim now taskId owner = .ok (task, after)) :
    ∃ before, list.tasks[taskId]? = some before ∧ before.status = .pending ∧
      list.incomplete before = [] ∧
      task = { before with owner := some owner, status := .inProgress, updatedAt := now } ∧
      after = list.setTask taskId task := by
  unfold TaskList.claim at h
  split at h
  · cases h
  · next before hbefore =>
    split at h
    · cases h
    · next hpending =>
      split at h
      · cases h
      · next hincomplete =>
        obtain ⟨rfl, rfl⟩ := Prod.ext_iff.mp (Except.ok.inj h)
        exact ⟨before, hbefore, not_not.mp hpending, not_not.mp hincomplete, rfl, rfl⟩

theorem get_setTask (list : TaskList) (taskId other : String) (task : Task) :
    (list.setTask taskId task).tasks[other]? =
      if taskId = other then some task else list.tasks[other]? :=
  get_insert _ _ _ _

section Effects

variable {s t : TaskState} {event : TaskEvent} {listId taskId owner : String}

theorem TaskEffect.claims (h : TaskEffect codec store s event.call event.outcome t)
    (hclaims : Claims s event t listId taskId owner) :
    ∃ list task, s.lists[listId]? = some list ∧ list.tasks[taskId]? = some task ∧
      task.status = .pending ∧
      (∀ depId ∈ task.blockedBy, ∀ dep, list.tasks[depId]? = some dep →
        dep.status = .completed) ∧
      Taken t listId taskId := by
  obtain ⟨hcall, task', hafter⟩ := hclaims
  have hphase : ∀ {state : TaskState} {operation : TaskOperation} {phase : Phase},
      t = state.setCall event.call operation phase → phase = .writing task' := by
    rintro state operation phase rfl
    rw [calls_setCall_self] at hafter
    exact congrArg TaskCall.phase (Option.some.inj hafter)
  generalize event.outcome = outcome at h
  cases h with
  | quiet operation phase _ hwriting _ _ _ => exact absurd (hphase rfl) (hwriting task')
  | loaded operation id rest lists readFails _ _ | written operation task fault disk _ _ _ =>
    exact Phase.noConfusion (hphase rfl)
  | changed operation now list task after hbefore hlist hchange =>
    obtain rfl : operation = .claim listId taskId owner :=
      congrArg TaskCall.operation (Option.some.inj (hbefore.symm.trans hcall))
    obtain ⟨before, htask, hpending, hincomplete, rfl, rfl⟩ := claim_ok hchange
    refine ⟨list, before, hlist, htask, hpending, fun depId hmem dep hdep => ?_,
      list.setTask taskId _, _, get_insert_self _ _ _,
      (get_setTask _ _ _ _).trans (if_pos rfl), fun h => by cases h⟩
    by_contra hstatus
    have hin : depId ∈ list.incomplete before := by
      refine mem_filter.mpr ⟨hmem, ?_⟩
      rw [hdep]
      exact decide_eq_true hstatus
    rw [hincomplete] at hin
    cases hin

/-- A task that is taken stays so unless it is made pending. -/
theorem TaskEffect.taken (h : TaskEffect codec store s event.call event.outcome t)
    (hnot : ¬Reopens s event listId taskId) (htaken : Taken s listId taskId) :
    Taken t listId taskId := by
  obtain ⟨held, task, hheld, htask, hstatus⟩ := htaken
  generalize event.outcome = outcome at h
  cases h with
  | quiet operation phase _ _ _ _ _ | written operation task' fault disk _ _ _ =>
    exact ⟨held, task, hheld, htask, hstatus⟩
  | loaded operation id rest lists readFails _ hensure =>
    rcases ensureList_get hensure listId with hsame | ⟨-, hmissing, -⟩
    · exact ⟨held, task, hsame.trans hheld, htask, hstatus⟩
    · cases hmissing.symm.trans hheld
  | changed operation now list task' after hcall hlist hchange =>
    by_cases heq : operation.listId = listId
    · subst heq
      obtain rfl := Option.some.inj (hlist.symm.trans hheld)
      -- the task is another one, or its status is not made pending
      have hkept : ∀ (id : String) (new : Task), (id = taskId → new.status ≠ .pending) →
          after.tasks[taskId]? = (list.setTask id new).tasks[taskId]? →
          Taken ({ s with lists := s.lists.insert operation.listId after }.setCall event.call
            operation (.writing task')) operation.listId taskId := by
        intro id new hnew hafter
        rw [get_setTask] at hafter
        by_cases hid : id = taskId
        · rw [if_pos hid] at hafter
          exact ⟨after, new, get_insert_self _ _ _, hafter, hnew hid⟩
        · rw [if_neg hid, htask] at hafter
          exact ⟨after, task, get_insert_self _ _ _, hafter, hstatus⟩
      cases operation with
      | create id subject description =>
        obtain ⟨rfl, rfl⟩ := Prod.ext_iff.mp (Except.ok.inj hchange)
        refine hkept (toString list.nextId) _ (fun hid => ?_) rfl
        exact absurd (.inr ⟨subject, description, list, hcall, hlist, hid⟩) hnot
      | update id taskId' change =>
        change list.update now taskId' change = _ at hchange
        unfold TaskList.update at hchange
        split at hchange
        · cases hchange
        · next before hbefore =>
          obtain ⟨rfl, rfl⟩ := Prod.ext_iff.mp (Except.ok.inj hchange)
          refine hkept taskId' _ (fun hid => ?_) rfl
          subst hid
          obtain rfl := Option.some.inj (hbefore.symm.trans htask)
          intro hpending
          cases hchanged : change.status with
          | none =>
            rw [hchanged] at hpending
            exact hstatus hpending
          | some status =>
            rw [hchanged] at hpending
            subst hpending
            exact hnot (.inl ⟨change, hcall, hchanged⟩)
      | claim id taskId' owner =>
        obtain ⟨before, hbefore, hpending, -, rfl, rfl⟩ := claim_ok hchange
        exact hkept taskId' _ (fun _ h => by cases h) rfl
      | get id taskId' | list id filter => cases hchange
    · exact ⟨held, task, (get_insert_of_ne _ heq _).trans hheld, htask, hstatus⟩

end Effects

theorem taken_or_reopened {events : List TaskEvent} {taskId : String} (hinv : TaskInv codec store s)
    (htaken : Taken s listId taskId) (hrun : Run (OrderlyStep codec store) s events t) :
    Taken t listId taskId ∨ ∃ front event back u, events = front ++ event :: back ∧
      Run (OrderlyStep codec store) s front u ∧ Reopens u event listId taskId := by
  induction hrun with
  | nil => exact .inl htaken
  | @cons s u t first rest hstep _ ih =>
    have heffect := step_effect hinv hstep
    by_cases hreopens : Reopens s first listId taskId
    · exact .inr ⟨[], first, rest, s, rfl, .nil s, hreopens⟩
    · rcases ih (hinv.effect heffect) (heffect.taken hreopens htaken) with
        hstill | ⟨front, event, back, w, rfl, hfront, hreopens⟩
      · exact .inl hstill
      · exact .inr ⟨first :: front, event, back, w, rfl, .cons hstep hfront, hreopens⟩

/-! ## Runs -/

/-- A store that was just opened. -/
def TaskState.fresh (disk : Disk) : TaskState where
  disk := disk
  lists := ∅
  calls _ := none

theorem TaskInv.fresh (h : disk.Grounded) :
    TaskInv codec store (TaskState.fresh disk) where
  grounded := h
  held listId list hlist := by
    rw [TaskState.fresh, Std.ExtTreeMap.getElem?_empty] at hlist
    cases hlist
  calls n call hcall := by cases hcall
  durable listId list hlist := by
    rw [TaskState.fresh, Std.ExtTreeMap.getElem?_empty] at hlist
    cases hlist

def Occurs (codec : TaskListCodec) (store : TaskStore) (start : TaskState)
    (events : List TaskEvent) (final u : TaskState) (event : TaskEvent) (v : TaskState) : Prop :=
  ∃ front back, events = front ++ event :: back ∧ Run (OrderlyStep codec store) start front u ∧
    OrderlyStep codec store u event v ∧ Run (OrderlyStep codec store) v back final

/-- **The task lists are durable and contained** in a run. -/
structure TasksKept (codec : TaskListCodec) (store : TaskStore) (start : TaskState)
    (events : List TaskEvent) (final : TaskState) : Prop where
  /-- A list that no call is about to write is loaded as it is in memory. -/
  durable : ∀ listId list, final.lists[listId]? = some list →
    (∀ n, ¬final.Writes n listId) → store.load codec final.disk false listId = .ok list
  /-- A call that fails changes neither the disk nor the lists. -/
  failed : ∀ u event v, Occurs codec store start events final u event v →
    ∀ failed ∈ events, failed.call = event.call → ∀ e, failed.outcome = some (.error e) →
      v.disk = u.disk ∧ ∀ listId, v.view codec store listId = u.view codec store listId
  /-- A task that is claimed is pending, and nothing that blocks it is incomplete. -/
  claimed : ∀ u event v, Occurs codec store start events final u event v →
    ∀ listId taskId owner, Claims u event v listId taskId owner →
      ∃ list task, u.lists[listId]? = some list ∧ list.tasks[taskId]? = some task ∧
        task.status = .pending ∧
        ∀ depId ∈ task.blockedBy, ∀ dep, list.tasks[depId]? = some dep → dep.status = .completed
  /-- Between two claims of a task it is made pending again. -/
  once : ∀ front middle first second u v w x, Run (OrderlyStep codec store) start front u →
    OrderlyStep codec store u first v → Run (OrderlyStep codec store) v middle w →
    OrderlyStep codec store w second x → ∀ listId taskId owner owner',
      Claims u first v listId taskId owner → Claims w second x listId taskId owner' →
      ∃ before event after y, middle = before ++ event :: after ∧
        Run (OrderlyStep codec store) v before y ∧ Reopens y event listId taskId
  /-- What is read and written is a file of its own in the directory. -/
  files : ∀ u event v, Occurs codec store start events final u event v →
    (∀ operation listId rest, u.calls event.call = some ⟨operation, .loading (listId :: rest)⟩ →
      PlainId listId) ∧
    ∀ place, v.disk place ≠ u.disk place → place <+: resolve store.dataDir ∨
      ∃ listId, PlainId listId ∧ place = resolve (store.filePath listId)
  children : ∀ listId, PlainId listId → resolve (store.filePath listId) =
    resolve store.dataDir ++ [.normal (listId ++ ".json").toList]
  distinct : ∀ listId listId', PlainId listId → PlainId listId' →
    resolve (store.filePath listId) = resolve (store.filePath listId') → listId = listId'

theorem TaskEffect.files {outcome : Option (Except TaskError TaskReply)}
    (hinv : TaskInv codec store s) (h : TaskEffect codec store s n outcome t)
    (place : List Component) (hchanged : t.disk place ≠ s.disk place) :
    place <+: resolve store.dataDir ∨
      ∃ listId, PlainId listId ∧ place = resolve (store.filePath listId) := by
  cases h with
  | quiet operation phase _ _ _ _ _ | loaded operation listId rest lists readFails _ _
  | changed operation now list task after _ _ _ => exact absurd rfl hchanged
  | written operation task fault disk hcall hpersist hcodec =>
    have hplain := (hinv.calls n _ hcall).operation
    cases hlist : s.lists[operation.listId]? with
    | none =>
      rw [persist_missing hlist] at hpersist
      exact absurd (congrFun (congrArg Prod.snd hpersist) place).symm hchanged
    | some list =>
      rcases (persist_ok hinv.grounded hplain hlist (hcodec list hlist) hpersist).places place
        hchanged with heq | hprefix
      · exact .inr ⟨operation.listId, hplain, heq⟩
      · exact .inl hprefix

/-- **The shared task list** in every run in which no write fails and every list id is a name. -/
theorem tasks_kept {disk : Disk} (hdisk : disk.Grounded) {events : List TaskEvent}
    {final : TaskState}
    (hrun : Run (OrderlyStep codec store) (TaskState.fresh disk) events final) :
    TasksKept codec store (TaskState.fresh disk) events final := by
  have hstart : TaskInv codec store (TaskState.fresh disk) := .fresh hdisk
  refine ⟨(hstart.run hrun).durable, ?_, ?_, ?_, ?_, fun listId => resolve_filePath,
    fun listId listId' h h' => resolve_filePath_inj h h'⟩
  · rintro u event v ⟨front, back, rfl, hfront, hstep, hback⟩ failed hmem hcall e herror
    have hinv := hstart.run hfront
    have heffect := step_effect hinv hstep
    rcases heffect.same_or_settled with hsame | ⟨hsettled, hok⟩
    · exact hsame
    · exfalso
      rcases List.mem_append.mp hmem with hbefore | hrest
      · exact heffect.not_returned (hcall ▸ returned_of_failed hstart hfront hbefore herror)
      · rcases List.mem_cons.mp hrest with rfl | hafter
        · exact hok e herror
        · exact not_failed_of_settled (hinv.effect heffect) hback hsettled hafter hcall e herror
  · rintro u event v ⟨front, back, rfl, hfront, hstep, -⟩ listId taskId owner hclaims
    have heffect := step_effect (hstart.run hfront) hstep
    obtain ⟨list, task, hlist, htask, hpending, hdeps, -⟩ := heffect.claims hclaims
    exact ⟨list, task, hlist, htask, hpending, hdeps⟩
  · intro front middle first second u v w x hfront hfirst hmiddle hsecond listId taskId owner
      owner' hclaims hclaims'
    have hinv := hstart.run hfront
    have heffect := step_effect hinv hfirst
    have hinv' := hinv.effect heffect
    obtain ⟨-, -, -, -, -, -, htaken⟩ := heffect.claims hclaims
    rcases taken_or_reopened hinv' htaken hmiddle with hstill | hreopened
    · exfalso
      obtain ⟨held, before, hheld, hbefore, hstatus⟩ := hstill
      obtain ⟨list, task, hlist, htask, hpending, -⟩ :=
        (step_effect (hinv'.run hmiddle) hsecond).claims hclaims'
      obtain rfl := Option.some.inj (hlist.symm.trans hheld)
      obtain rfl := Option.some.inj (htask.symm.trans hbefore)
      exact hstatus hpending
    · exact hreopened
  · rintro u event v ⟨front, back, rfl, hfront, hstep, -⟩
    have hinv := hstart.run hfront
    exact ⟨fun operation listId rest hcall =>
      (hinv.calls _ _ hcall).rest _ rfl listId List.mem_cons_self,
      (step_effect hinv hstep).files hinv⟩

/-! ## Two runs -/

def dirOnly : Disk := fun place =>
  if place = resolve "/d".toList ∨ place = [.rootDir] then some .dir else none

theorem grounded_dirOnly : dirOnly.Grounded := by
  intro place entry hentry
  unfold dirOnly at hentry
  split at hentry
  · next hplace =>
    rcases hplace with rfl | rfl
    · decide
    · decide
  · cases hentry

def oneTask : TaskList := (TaskList.default.create 0 "a" "s" "").2

def oneTaskText : String :=
  "\x7b\n  \"next_id\": 2,\n  \"tasks\": \x7b\n    \"1\": \x7b\n" ++
  "      \"id\": \"1\",\n      \"subject\": \"s\",\n      \"description\": \"\",\n" ++
  "      \"status\": \"pending\",\n      \"owner\": null,\n      \"blocked_by\": [],\n" ++
  "      \"created_at\": 0,\n      \"updated_at\": 0,\n      \"list_id\": \"a\"\n" ++
  "    \x7d\n  \x7d\n\x7d"

/-- That task once it is claimed. -/
def claimedTask : Task :=
  { (TaskList.default.create 0 "a" "s" "").1 with
    owner := some "x", status := .inProgress, updatedAt := 1 }

def claimedList : TaskList := oneTask.setTask "1" claimedTask

def claimedText : String :=
  "\x7b\n  \"next_id\": 2,\n  \"tasks\": \x7b\n    \"1\": \x7b\n" ++
  "      \"id\": \"1\",\n      \"subject\": \"s\",\n      \"description\": \"\",\n" ++
  "      \"status\": \"in_progress\",\n      \"owner\": \"x\",\n      \"blocked_by\": [],\n" ++
  "      \"created_at\": 0,\n      \"updated_at\": 1,\n      \"list_id\": \"a\"\n" ++
  "    \x7d\n  \x7d\n\x7d"

/-- The text of a list, and the list of that text. -/
def codecOf (list : TaskList) (listText : String) : TaskListCodec where
  toStringPretty _ := listText.toList
  fromStr text := if text = listText.toList then some list else none

def oneTaskCodec : TaskListCodec := codecOf oneTask oneTaskText

def claimedCodec : TaskListCodec := codecOf claimedList claimedText

theorem orderly_of_other {codec : TaskListCodec}
    (hplain : ∀ operation, event.action = .start operation → PlainId operation.listId)
    (hother : ∀ fault, event.action ≠ .write fault) : Orderly codec s event :=
  ⟨hplain, fun fault h => absurd h (hother fault),
    fun fault _ _ _ h => absurd h (hother fault)⟩

theorem orderly_start {codec : TaskListCodec} {n : ℕ} {operation : TaskOperation}
    {outcome : Option (Except TaskError TaskReply)} (hplain : PlainId operation.listId) :
    Orderly codec s ⟨n, .start operation, outcome⟩ := by
  refine orderly_of_other (fun started h => ?_) fun fault => TaskAction.noConfusion
  obtain rfl := TaskAction.start.inj h
  exact hplain

theorem orderly_load {codec : TaskListCodec} {n : ℕ} {readFails : Bool}
    {outcome : Option (Except TaskError TaskReply)} :
    Orderly codec s ⟨n, .load readFails, outcome⟩ :=
  orderly_of_other (fun _ => TaskAction.noConfusion) fun _ => TaskAction.noConfusion

theorem orderly_act {codec : TaskListCodec} {n now : ℕ}
    {outcome : Option (Except TaskError TaskReply)} : Orderly codec s ⟨n, .act now, outcome⟩ :=
  orderly_of_other (fun _ => TaskAction.noConfusion) fun _ => TaskAction.noConfusion

theorem orderly_write {list : TaskList} {listText : String} {n : ℕ} {call : TaskCall}
    {reply : TaskReply} (hcall : s.calls n = some call)
    (hlist : s.lists[call.operation.listId]? = some list) :
    Orderly (codecOf list listText) s ⟨n, .write .none, some (.ok reply)⟩ := by
  refine ⟨fun operation => TaskAction.noConfusion, (fun fault _ e h => by cases h), ?_⟩
  intro fault operation task held _ hheld hfound
  obtain rfl := Option.some.inj (hheld.symm.trans hcall)
  obtain rfl := Option.some.inj (hfound.symm.trans hlist)
  simp only [codecOf, if_true]

theorem tasks_kept_create : ∃ final, TasksKept claimedCodec (.new "/d".toList)
    (TaskState.fresh dirOnly)
    [⟨0, .start (.create "a" "s" ""), none⟩, ⟨0, .load false, none⟩,
      ⟨1, .start (.claim "a" "1" "x"), none⟩, ⟨0, .act 0, none⟩, ⟨1, .load false, none⟩,
      ⟨1, .act 1, none⟩,
      ⟨0, .write .none, some (.ok (.task (TaskList.default.create 0 "a" "s" "").1))⟩,
      ⟨1, .write .none, some (.ok (.task claimedTask))⟩] final := by
  have hplain : PlainId "a" := by
    unfold PlainId
    decide
  exact ⟨_, tasks_kept grounded_dirOnly <|
    .cons ⟨rfl, orderly_start hplain⟩ <|
    .cons ⟨rfl, orderly_load⟩ <|
    .cons ⟨rfl, orderly_start hplain⟩ <|
    .cons ⟨rfl, orderly_act⟩ <|
    .cons ⟨rfl, orderly_load⟩ <|
    .cons ⟨rfl, orderly_act⟩ <|
    .cons ⟨rfl, orderly_write rfl rfl⟩ <|
    .cons ⟨rfl, orderly_write rfl rfl⟩ <| .nil _⟩

/-- The events of some actions, and the state after them. -/
def TaskState.steps (codec : TaskListCodec) (store : TaskStore) (s : TaskState) :
    List (ℕ × TaskAction) → Option (List TaskEvent × TaskState)
  | [] => some ([], s)
  | (n, action) :: rest =>
    match s.step codec store n action with
    | none => none
    | some (outcome, t) =>
      (t.steps codec store rest).map fun result => (⟨n, action, outcome⟩ :: result.1, result.2)

theorem run_of_steps {actions : List (ℕ × TaskAction)} {result : List TaskEvent × TaskState}
    (h : s.steps codec store actions = some result) :
    Run (TaskStep codec store) s result.1 result.2 := by
  induction actions generalizing s result with
  | nil =>
    obtain rfl := Option.some.inj h
    exact .nil s
  | cons action rest ih =>
    unfold steps at h
    split at h
    · cases h
    · next outcome t hstep =>
      obtain ⟨result', hrest, rfl⟩ := Option.map_eq_some_iff.mp h
      exact .cons hstep (ih hrest)

def TaskEvent.error (event : TaskEvent) : Option TaskError :=
  match event.outcome with
  | some (.error e) => some e
  | _ => none

theorem failed_claim_stays :
    ∃ events final, Run (TaskStep oneTaskCodec (.new "/d".toList)) (TaskState.fresh dirOnly)
        events final ∧
      events.filterMap TaskEvent.error = [.write "a", .notPending "1" .inProgress] ∧
      (final.lists["a"]?.bind (·.tasks["1"]?)).map Task.status = some .inProgress ∧
      final.disk.lookup ((TaskStore.new "/d".toList).filePath "a") =
        some (.file oneTaskText.toList) ∧
      oneTask.tasks["1"]?.map Task.status = some .pending := by
  have hrun : ((TaskState.fresh dirOnly).steps oneTaskCodec (.new "/d".toList)
      [(0, .start (.create "a" "s" "")), (0, .load false), (0, .act 0), (0, .write .none),
        (1, .start (.claim "a" "1" "x")), (1, .load false), (1, .act 0), (1, .write .unopened),
        (2, .start (.claim "a" "1" "x")), (2, .load false), (2, .act 0)]).any (fun result =>
      decide (result.1.filterMap TaskEvent.error = [.write "a", .notPending "1" .inProgress] ∧
      (result.2.lists["a"]?.bind (·.tasks["1"]?)).map Task.status = some .inProgress ∧
      result.2.disk.lookup ((TaskStore.new "/d".toList).filePath "a") =
        some (.file oneTaskText.toList) ∧
      oneTask.tasks["1"]?.map Task.status = some .pending)) = true := by
    decide +kernel
  obtain ⟨⟨events, final⟩, hsteps, hresult⟩ := (Option.any_eq_true _ _).mp hrun
  exact ⟨events, final, run_of_steps hsteps, of_decide_eq_true hresult⟩

end Chelix.Tools
