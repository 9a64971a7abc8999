import Chelix.Gateway.A2uiSurface
import Chelix.Library.Results

/-!
# An accepted surface can be answered

The checks run along with the surface that the messages build.  What they recorded of a component
is lost when the component is declared again, but the flag that some component sends an action is
not.

* **`accepted_answerable_iff`**: when it holds.
-/

namespace Chelix.Gateway

open Chelix.Library List

/-! ## Surfaces -/

/-- The components in force: one for each id, and those that have no id. -/
structure Surface where
  named : String → Option A2uiComponent
  unnamed : List A2uiComponent

variable {s : Surface} {component : A2uiComponent}

namespace Surface

def empty : Surface where
  named _ := none
  unnamed := []

/-- A component replaces the one with its id. -/
def declare (s : Surface) (component : A2uiComponent) : Surface :=
  match component.id with
  | some id => { s with named := Function.update s.named id (some component) }
  | none => { s with unnamed := s.unnamed ++ [component] }

def apply (s : Surface) : A2uiServerMessage → Surface
  | .updateComponents _ update => update.components.foldl declare s
  | _ => s

def InForce (s : Surface) (component : A2uiComponent) : Prop :=
  component ∈ s.unnamed ∨ ∃ id, s.named id = some component

theorem named_declare (s : Surface) (component : A2uiComponent) (id : String) :
    (s.declare component).named id =
      if component.id = some id then some component else s.named id := by
  unfold declare
  cases hid : component.id with
  | none => exact (if_neg fun h => by cases h).symm
  | some other =>
    simp only [Function.update_apply, Option.some.injEq]
    by_cases heq : id = other
    · rw [if_pos heq, if_pos heq.symm]
    · rw [if_neg heq, if_neg (Ne.symm heq)]

theorem inForce_declare {other : A2uiComponent} (h : (s.declare component).InForce other) :
    other = component ∨ s.InForce other := by
  rcases h with hmem | ⟨id, hnamed⟩
  · unfold declare at hmem
    cases hid : component.id with
    | some id =>
      rw [hid] at hmem
      exact .inr (.inl hmem)
    | none =>
      rw [hid] at hmem
      rcases mem_append.mp hmem with hmem | hmem
      · exact .inr (.inl hmem)
      · exact .inl (mem_singleton.mp hmem)
  · rw [named_declare] at hnamed
    split at hnamed
    · exact .inl (Option.some.inj hnamed).symm
    · exact .inr (.inr ⟨id, hnamed⟩)

theorem named_foldl_declare {components : List A2uiComponent} {id : String} :
    (components.foldl declare empty).named id = some component ↔
      ∃ before after, components = before ++ component :: after ∧ component.id = some id ∧
        ∀ later ∈ after, later.id ≠ some id := by
  induction components using List.reverseRecOn with
  | nil =>
    refine iff_of_false (fun h => by cases h) ?_
    rintro ⟨before, after, heq, -⟩
    cases before <;> cases heq
  | append_singleton components last ih =>
    rw [foldl_append, foldl_cons, foldl_nil, named_declare]
    by_cases hlast : last.id = some id
    · rw [if_pos hlast, Option.some.injEq]
      constructor
      · rintro rfl
        exact ⟨components, [], rfl, hlast, fun _ h => absurd h not_mem_nil⟩
      · rintro ⟨before, after, heq, -, hafter⟩
        rcases eq_nil_or_concat after with rfl | ⟨init, final, rfl⟩
        · exact (append_inj_right' heq rfl |> List.cons.inj).1
        · rw [concat_eq_append, ← cons_append, ← append_assoc] at heq
          have hfinal := (List.cons.inj (append_inj_right' heq rfl)).1
          exact absurd (hfinal ▸ hlast) (hafter final (by simp))
    · rw [if_neg hlast, ih]
      constructor
      · rintro ⟨before, after, rfl, hid, hafter⟩
        refine ⟨before, after ++ [last], by simp, hid, fun later hlater => ?_⟩
        rcases mem_append.mp hlater with hlater | hlater
        · exact hafter later hlater
        · rw [mem_singleton.mp hlater]
          exact hlast
      · rintro ⟨before, after, heq, hid, hafter⟩
        rcases eq_nil_or_concat after with rfl | ⟨init, final, rfl⟩
        · have hsame := (append_inj_right' heq rfl |> List.cons.inj).1
          exact absurd (hsame ▸ hid) hlast
        · rw [concat_eq_append, ← cons_append, ← append_assoc] at heq
          refine ⟨before, init, append_inj_left' heq rfl, hid, fun later hlater => ?_⟩
          exact hafter later (by simp [hlater])

end Surface

/-- The surface that messages build. -/
def surfaceOf (messages : List A2uiServerMessage) : Surface := messages.foldl Surface.apply .empty

/-- The components that messages declare, one after another. -/
def declarations (messages : List A2uiServerMessage) : List A2uiComponent :=
  messages.flatMap fun message =>
    match message with
    | .updateComponents _ update => update.components
    | _ => []

theorem foldl_apply (messages : List A2uiServerMessage) (s : Surface) :
    messages.foldl Surface.apply s = (declarations messages).foldl Surface.declare s := by
  induction messages generalizing s with
  | nil => rfl
  | cons message rest ih =>
    unfold declarations at ih ⊢
    rw [foldl_cons, ih, flatMap_cons, foldl_append]
    cases message <;> rfl

/-! ## The checks -/

variable {kind : BasicComponent}

variable {messages : List A2uiServerMessage} {surfaceId : String}

section Checks

variable {env : A2uiEnv}

theorem tryFrom_eq_ok {value : String} (h : BasicComponent.tryFrom value = .ok kind) :
    kind.name = value := by
  unfold BasicComponent.tryFrom at h
  cases hfind : BasicComponent.all.find? fun component => component.name = value with
  | none =>
    rw [hfind] at h
    cases h
  | some found =>
    rw [hfind] at h
    cases h
    have hname := List.find?_some hfind
    exact of_decide_eq_true hname

/-- A media source that the page loads. -/
inductive IsLoadable (env : A2uiEnv) : Json → Prop
  | binding (fields : List (String × Json)) : IsLoadable env (.obj fields)
  | data (literal : String) (h : "data:".toList <+: trimText literal.toList) :
      IsLoadable env (.str literal)
  | rootRelative (literal : String) (h : "/".toList <+: trimText literal.toList)
      (hhost : ¬"//".toList <+: trimText literal.toList) : IsLoadable env (.str literal)
  | https (literal : String)
      (h : env.urlScheme (String.ofList (trimText literal.toList)) = some "https") :
      IsLoadable env (.str literal)

theorem isLoadable_of_validateMediaUrl {label : String} {url : Json}
    (h : validateMediaUrl env label kind url = .ok ()) : IsLoadable env url := by
  cases url with
  | obj fields => exact .binding fields
  | str literal =>
    unfold validateMediaUrl at h
    simp only at h
    split at h
    · cases h
    split at h
    · rename_i hdata
      exact .data literal hdata
    split at h
    · rename_i hroot
      exact .rootRelative literal hroot.1 hroot.2
    cases hscheme : env.urlScheme (String.ofList (trimText literal.toList)) with
    | none =>
      rw [hscheme] at h
      cases h
    | some scheme =>
      rw [hscheme] at h
      simp only at h
      split at h
      · cases h
      · rename_i hhttps
        rw [Decidable.not_not.mp hhttps] at hscheme
        exact .https literal hscheme
  | _ => cases h

/-- A component is in the catalog, has the fields that its entry requires and, if it is a media
element, a source that the page loads. -/
def Valid (env : A2uiEnv) (component : A2uiComponent) : Prop :=
  ∃ kind : BasicComponent, kind.name = component.component ∧
    (∀ field ∈ kind.requiredFields, (property component.properties field).isSome = true) ∧
    (kind.isMedia = true → ∃ url, property component.properties "url" = some url ∧
      IsLoadable env url)

theorem valid_of_validateComponent (h : validateComponent env component = .ok ()) :
    Valid env component := by
  unfold validateComponent at h
  obtain ⟨kind, hkind, h⟩ := bind_eq_ok.mp h
  obtain ⟨_, -, h⟩ := bind_eq_ok.mp h
  obtain ⟨-, h⟩ := guard_eq_ok.mp h
  obtain ⟨_, hfields, hmedia⟩ := bind_eq_ok.mp h
  refine ⟨kind, tryFrom_eq_ok hkind, fun field hfield => ?_, fun hkindMedia => ?_⟩
  · unfold validateRequiredFields at hfields
    cases hfind : kind.requiredFields.find? fun field =>
        (property component.properties field).isNone with
    | some missing =>
      rw [hfind] at hfields
      cases hfields
    | none =>
      have hsome := List.find?_eq_none.mp hfind field hfield
      rw [Bool.not_eq_true, Option.isNone_eq_false_iff] at hsome
      exact hsome
  · unfold validateMedia at hmedia
    rw [if_pos hkindMedia] at hmedia
    cases hurl : property component.properties "url" with
    | none =>
      rw [hurl] at hmedia
      cases hmedia
    | some url =>
      rw [hurl] at hmedia
      exact ⟨url, rfl, isLoadable_of_validateMediaUrl hmedia⟩

/-- What the checks know of the surface that the messages so far build. -/
structure Tracks (env : A2uiEnv) (totals : InteractionTotals) (s : Surface) : Prop where
  declared : ∀ id, totals.declaredComponents id = (s.named id).map A2uiComponent.properties
  valid : ∀ component, s.InForce component → Valid env component
  triggers : ∀ component trigger, s.InForce component → component.component = "Modal" →
    property component.properties "trigger" = some trigger →
    ∃ label, (label, trigger) ∈ totals.modalTriggers

theorem Tracks.start : Tracks env .start .empty where
  declared _ := rfl
  valid component h := by
    rcases h with h | ⟨id, h⟩
    · exact absurd h not_mem_nil
    · cases h
  triggers component trigger h := by
    rcases h with h | ⟨id, h⟩
    · exact absurd h not_mem_nil
    · cases h

theorem Tracks.checkComponent {totals totals' : InteractionTotals} (htracks : Tracks env totals s)
    (h : checkComponent env totals component = .ok totals') :
    Tracks env totals' (s.declare component) := by
  unfold Gateway.checkComponent at h
  obtain ⟨_, hvalid, h⟩ := bind_eq_ok.mp h
  obtain ⟨kind, hkind, h⟩ := bind_eq_ok.mp h
  cases h
  refine ⟨fun id => ?_, fun other hother => ?_, fun other trigger hother hmodal htrigger => ?_⟩
  · rw [Surface.named_declare]
    cases hid : component.id with
    | none =>
      rw [if_neg fun h => by cases h]
      exact htracks.declared id
    | some own =>
      simp only [Function.update_apply, Option.some.injEq]
      by_cases heq : id = own
      · rw [if_pos heq, if_pos heq.symm]
        rfl
      · rw [if_neg heq, if_neg (Ne.symm heq)]
        exact htracks.declared id
  · rcases Surface.inForce_declare hother with rfl | hother
    · exact valid_of_validateComponent hvalid
    · exact htracks.valid other hother
  · rcases Surface.inForce_declare hother with rfl | hother
    · have hname := tryFrom_eq_ok hkind
      rw [hmodal] at hname
      have hkindModal : kind = .modal := by
        revert hname
        cases kind <;> decide
      refine ⟨other.id.getD other.component, mem_append_right _ ?_⟩
      simp only [htrigger, if_pos hkindModal, mem_singleton]
    · obtain ⟨label, hmem⟩ := htracks.triggers other trigger hother hmodal htrigger
      exact ⟨label, mem_append_left _ hmem⟩

theorem Tracks.checkMessage {totals totals' : InteractionTotals}
    {message : A2uiServerMessage} (htracks : Tracks env totals s)
    (h : checkMessage env surfaceId totals message = .ok totals') :
    Tracks env totals' (s.apply message) := by
  unfold Gateway.checkMessage at h
  obtain ⟨-, h⟩ := guard_eq_ok.mp h
  obtain ⟨-, h⟩ := guard_eq_ok.mp h
  cases message with
  | create version create =>
    cases h
    exact ⟨htracks.declared, htracks.valid, htracks.triggers⟩
  | updateComponents version update =>
    obtain ⟨-, h⟩ := guard_eq_ok.mp h
    obtain ⟨-, h⟩ := guard_eq_ok.mp h
    exact rel_of_foldlM_eq_ok (fun _ _ _ _ hrel hstep => hrel.checkComponent hstep) h
      ⟨htracks.declared, htracks.valid, htracks.triggers⟩
  | updateDataModel version update =>
    cases hpath : update.path with
    | none =>
      simp only [hpath] at h
      cases h
      exact htracks
    | some path =>
      simp only [hpath] at h
      split at h
      · cases h
      · cases h
        exact htracks
  | delete version delete => cases h

theorem tracks_of_validateMessages (h : validateMessages env messages = .ok surfaceId) :
    ∃ totals, Tracks env totals (surfaceOf messages) ∧
      (totals.declaredComponents rootComponentId).isSome = true ∧
      ∀ modal ∈ totals.modalTriggers,
        validateModalTrigger modal.1 modal.2 totals.declaredComponents = .ok () := by
  unfold validateMessages at h
  cases hhead : messages.head? with
  | none =>
    rw [hhead] at h
    cases h
  | some first =>
    rw [hhead] at h
    cases first with
    | create version create =>
      obtain ⟨-, h⟩ := guard_eq_ok.mp h
      obtain ⟨_, -, h⟩ := bind_eq_ok.mp h
      obtain ⟨totals, htotals, h⟩ := bind_eq_ok.mp h
      obtain ⟨-, h⟩ := guard_eq_ok.mp h
      obtain ⟨-, h⟩ := guard_eq_ok.mp h
      obtain ⟨hroot, h⟩ := guard_eq_ok.mp h
      obtain ⟨-, h⟩ := guard_eq_ok.mp h
      obtain ⟨_, hmodals, -⟩ := bind_eq_ok.mp h
      refine ⟨totals, ?_, ?_, ?_⟩
      · exact rel_of_foldlM_eq_ok (fun _ _ _ _ hrel hstep => hrel.checkMessage hstep) htotals
          Tracks.start
      · rw [Bool.not_eq_true, Option.isNone_eq_false_iff] at hroot
        exact hroot
      · exact forall_of_forM_eq_ok hmodals
    | _ => cases h

end Checks

/-! ## Answers -/

/-- A surface that can be answered. -/
structure Answerable (env : A2uiEnv) (s : Surface) : Prop where
  root : ∃ component, s.named rootComponentId = some component
  action : ∃ id component, s.named id = some component ∧
    containsServerAction component.properties = true
  modal : ∀ component, s.InForce component → component.component = "Modal" →
    ∃ id trigger, property component.properties "trigger" = some (.str id) ∧
      s.named id = some trigger ∧ containsServerAction trigger.properties = false
  media : ∀ component, s.InForce component → ∀ kind : BasicComponent,
    kind.name = component.component → kind.isMedia = true →
      ∃ url, property component.properties "url" = some url ∧ IsLoadable env url
  fields : ∀ component, s.InForce component → ∃ kind : BasicComponent,
    kind.name = component.component ∧
      ∀ field ∈ kind.requiredFields, (property component.properties field).isSome = true

/-- Some component that sends an action to the server has an id, and no later one has its id. -/
def ActionStays (messages : List A2uiServerMessage) : Prop :=
  ∃ before component after id, declarations messages = before ++ component :: after ∧
    component.id = some id ∧ containsServerAction component.properties = true ∧
    ∀ later ∈ after, later.id ≠ some id

theorem actionStays_iff :
    ActionStays messages ↔ ∃ id component, (surfaceOf messages).named id = some component ∧
      containsServerAction component.properties = true := by
  unfold ActionStays surfaceOf
  rw [foldl_apply]
  simp only [Surface.named_foldl_declare]
  constructor
  · rintro ⟨before, component, after, id, heq, hid, haction, hafter⟩
    exact ⟨id, component, ⟨before, after, heq, hid, hafter⟩, haction⟩
  · rintro ⟨id, component, ⟨before, after, heq, hid, hafter⟩, haction⟩
    exact ⟨before, component, after, id, heq, hid, haction, hafter⟩

theorem name_injective {kind' : BasicComponent} (h : kind.name = kind'.name) : kind = kind' := by
  revert h
  cases kind <;> cases kind' <;> decide

/-- **An accepted surface can be answered** if and only if some component that sends an action to
the server has an id and is not declared again. -/
theorem accepted_answerable_iff {env : A2uiEnv} {params : Json} {surfaceId : String}
    (h : validateRenderParams env params = .ok surfaceId) {messages : List A2uiServerMessage}
    (hmessages : renderMessages env params = .ok messages) :
    Answerable env (surfaceOf messages) ↔ ActionStays messages := by
  unfold validateRenderParams at h
  rw [hmessages, ok_bind] at h
  obtain ⟨totals, htracks, hroot, hmodals⟩ := tracks_of_validateMessages h
  rw [actionStays_iff]
  refine ⟨Answerable.action, fun haction => ⟨?_, haction, ?_, ?_, ?_⟩⟩
  · rw [htracks.declared, Option.isSome_map] at hroot
    exact Option.isSome_iff_exists.mp hroot
  · intro component hforce hmodal
    obtain ⟨kind, hname, hfields, -⟩ := htracks.valid component hforce
    have hkind : kind = .modal := name_injective (hname.trans hmodal)
    obtain ⟨trigger, htrigger⟩ := Option.isSome_iff_exists.mp
      (hfields "trigger" (by rw [hkind]; exact List.mem_cons_self))
    obtain ⟨label, hmem⟩ := htracks.triggers component trigger hforce hmodal htrigger
    have hchecked := hmodals _ hmem
    cases trigger with
    | str id =>
      unfold validateModalTrigger at hchecked
      simp only [htracks.declared] at hchecked
      cases hnamed : (surfaceOf messages).named id with
      | none =>
        rw [hnamed] at hchecked
        cases hchecked
      | some found =>
        rw [hnamed, Option.map_some] at hchecked
        simp only at hchecked
        split at hchecked
        · cases hchecked
        · rename_i hsilent
          exact ⟨id, found, htrigger, hnamed, Bool.not_eq_true _ ▸ hsilent⟩
    | _ => cases hchecked
  · intro component hforce kind hname hmedia
    obtain ⟨kind', hname', -, hmedia'⟩ := htracks.valid component hforce
    obtain rfl := name_injective (hname'.trans hname.symm)
    exact hmedia' hmedia
  · intro component hforce
    obtain ⟨kind, hname, hfields, -⟩ := htracks.valid component hforce
    exact ⟨kind, hname, hfields⟩

/-! ## A button and its replacement -/

def createConfirm : Json := .obj [("version", .str protocolVersion), ("createSurface",
  .obj [("surfaceId", .str "confirm"), ("catalogId", .str basicCatalogId)])]

def updateConfirm (components : List Json) : Json := .obj [("version", .str protocolVersion),
  ("updateComponents", .obj [("surfaceId", .str "confirm"), ("components", .arr components)])]

def confirmButton : Json := .obj [("id", .str "root"), ("component", .str "Button"),
  ("child", .str "label"), ("action", .obj [("event", .obj [("name", .str "confirm")])])]

def confirmText : Json :=
  .obj [("id", .str "root"), ("component", .str "Text"), ("text", .str "Confirm")]

def noMedia : A2uiEnv where
  decodeError _ _ := ""
  urlScheme _ := none

def buttonParams : Json := .obj [("messages", .arr [createConfirm, updateConfirm [confirmButton]])]

/-- The button is declared again as a text. -/
def replacedParams : Json := .obj
  [("messages", .arr [createConfirm, updateConfirm [confirmButton], updateConfirm [confirmText]])]

def messagesOf (params : Json) : List A2uiServerMessage :=
  match renderMessages noMedia params with
  | .ok messages => messages
  | .error _ => []

theorem renderMessages_eq_messagesOf {params : Json}
    (h : validateRenderParams noMedia params = .ok "confirm") :
    renderMessages noMedia params = .ok (messagesOf params) := by
  obtain ⟨messages, hmessages, -⟩ := bind_eq_ok.mp h
  unfold messagesOf
  rw [hmessages]

def rootButton : A2uiComponent where
  component := "Button"
  id := some "root"
  weight := none
  properties := [("child", .str "label"),
    ("action", .obj [("event", .obj [("name", .str "confirm")])])]

def rootText : A2uiComponent where
  component := "Text"
  id := some "root"
  weight := none
  properties := [("text", .str "Confirm")]

theorem accepted_answerable_iff_button :
    validateRenderParams noMedia buttonParams = .ok "confirm" ∧
      Answerable noMedia (surfaceOf (messagesOf buttonParams)) := by
  have hvalid : validateRenderParams noMedia buttonParams = .ok "confirm" := by decide +kernel
  refine ⟨hvalid, (accepted_answerable_iff hvalid (renderMessages_eq_messagesOf hvalid)).mpr ?_⟩
  have hdeclared : declarations (messagesOf buttonParams) = [rootButton] := by decide +kernel
  exact ⟨[], rootButton, [], "root", hdeclared, rfl, by decide, fun _ h =>
    absurd h List.not_mem_nil⟩

theorem replaced_button_accepted : ¬∀ (env : A2uiEnv) (params : Json) (surfaceId : String)
    (messages : List A2uiServerMessage), validateRenderParams env params = .ok surfaceId →
      renderMessages env params = .ok messages → Answerable env (surfaceOf messages) := by
  intro h
  have hvalid : validateRenderParams noMedia replacedParams = .ok "confirm" := by decide +kernel
  have hanswerable := h noMedia replacedParams "confirm" _ hvalid
    (renderMessages_eq_messagesOf hvalid)
  have hdeclared : declarations (messagesOf replacedParams) = [rootButton, rootText] := by
    decide +kernel
  obtain ⟨before, component, after, id, heq, hid, haction, hafter⟩ :=
    actionStays_iff.mpr hanswerable.action
  rw [hdeclared] at heq
  rcases List.append_eq_cons_iff.mp heq.symm with ⟨rfl, hrest⟩ | ⟨front, rfl, hrest⟩
  · cases hrest
    cases hid
    exact hafter rootText List.mem_cons_self rfl
  · rcases List.append_eq_cons_iff.mp hrest.symm with ⟨rfl, hlast⟩ | ⟨_, rfl, hlast⟩
    · cases hlast
      exact absurd haction (by decide)
    · exact List.cons_ne_nil _ _ (List.append_eq_nil_iff.mp hlast.symm).2

end Chelix.Gateway
