import Chelix.Tools.Policy

/-!
# The layers of the effective tool policy

The effective policy permits what its layers permit, and an entry more that a layer denies permits
no other tool.

* **`resolveEffectivePolicy_layered`**: the result for configurations.
-/

namespace Chelix.Tools

open Chelix.Library Chelix.Config List ToolPolicy

/-! ## Merging -/

namespace ToolPolicy

variable {policy policy' layer layer' : ToolPolicy} {name : String}

theorem isAllowed_iff : policy.isAllowed name = true ↔
    (∀ pattern ∈ policy.deny, patternMatches pattern name = false) ∧
      (policy.allow = [] ∨ ∃ pattern ∈ policy.allow, patternMatches pattern name = true) := by
  have hdenied : (policy.deny.any fun pattern => patternMatches pattern name) = false ↔
      ∀ pattern ∈ policy.deny, patternMatches pattern name = false := by
    simp [any_eq_false]
  unfold isAllowed
  split
  · rename_i hany
    refine iff_of_false Bool.false_ne_true fun h => ?_
    rw [hdenied.mpr h.1] at hany
    exact Bool.false_ne_true hany
  · rename_i hany
    rw [Bool.or_eq_true, List.isEmpty_iff, any_eq_true]
    exact ⟨fun h => ⟨hdenied.mp (Bool.eq_false_of_not_eq_true hany), h⟩, And.right⟩

/-- An empty layer changes nothing, so that it need not be skipped. -/
theorem mergeLayer_eq (policy layer : ToolPolicy) :
    policy.mergeLayer layer = policy.mergeWith layer := by
  unfold mergeLayer
  split
  · rfl
  · rename_i hempty
    rw [Bool.or_eq_true, not_or, Bool.not_eq_true', Bool.not_eq_false, Bool.not_eq_true',
      Bool.not_eq_false, List.isEmpty_iff, List.isEmpty_iff] at hempty
    obtain ⟨hallow, hdeny⟩ := hempty
    unfold mergeWith
    rw [hallow, hdeny, append_nil]
    rfl

theorem mergeWith_default (policy : ToolPolicy) : policy.mergeWith default = policy := by
  unfold mergeWith default
  rw [append_nil]
  rfl

theorem mergeSome_eq (policy : ToolPolicy) (layer : Option ToolPolicy) :
    policy.mergeSome layer = policy.mergeWith (layer.getD default) := by
  cases layer with
  | none => exact policy.mergeWith_default.symm
  | some layer => exact policy.mergeLayer_eq layer

theorem foldl_mergeWith (layers : List ToolPolicy) (policy : ToolPolicy) :
    layers.foldl mergeWith policy =
      { allow := ((layers.filter fun layer => !layer.allow.isEmpty).getLast?.map
          allow).getD policy.allow
        deny := policy.deny ++ layers.flatMap deny } := by
  induction layers generalizing policy with
  | nil =>
    rw [flatMap_nil, append_nil]
    rfl
  | cons layer layers ih =>
    rw [foldl_cons, ih, flatMap_cons, ← append_assoc]
    congr 1
    cases hempty : layer.allow.isEmpty with
    | true =>
      have hfilter : ((layer :: layers).filter fun layer => !layer.allow.isEmpty) =
          layers.filter fun layer => !layer.allow.isEmpty := by
        rw [filter_cons, hempty]
        rfl
      have hallow : (policy.mergeWith layer).allow = policy.allow := if_pos hempty
      rw [hfilter, hallow]
    | false =>
      have hfilter : ((layer :: layers).filter fun layer => !layer.allow.isEmpty) =
          layer :: layers.filter fun layer => !layer.allow.isEmpty := by
        rw [filter_cons, hempty]
        rfl
      have hallow : (policy.mergeWith layer).allow = layer.allow := by
        unfold mergeWith
        rw [hempty]
        rfl
      rw [hfilter, hallow, List.getLast?_cons, Option.map_some, Option.getD_some]
      cases (layers.filter fun layer => !layer.allow.isEmpty).getLast? with
      | none | some top => rfl

/-- **The merged layers** permit what all of them permit. -/
theorem foldl_mergeWith_isAllowed_iff (layers : List ToolPolicy) :
    (layers.foldl mergeWith default).isAllowed name = true ↔ Permits layers name := by
  rw [isAllowed_iff, foldl_mergeWith]
  have hdeny : (∀ pattern ∈ default.deny ++ layers.flatMap deny,
      patternMatches pattern name = false) ↔
        ∀ layer ∈ layers, ∀ pattern ∈ layer.deny, patternMatches pattern name = false := by
    change (∀ pattern ∈ [] ++ layers.flatMap deny, _) ↔ _
    rw [nil_append]
    constructor
    · intro h layer hlayer pattern hpattern
      exact h pattern (mem_flatMap.mpr ⟨layer, hlayer, hpattern⟩)
    · intro h pattern hpattern
      obtain ⟨layer, hlayer, hmem⟩ := mem_flatMap.mp hpattern
      exact h layer hlayer pattern hmem
  have hallow : (((layers.filter fun layer => !layer.allow.isEmpty).getLast?.map
      allow).getD default.allow = [] ∨
        ∃ pattern ∈ ((layers.filter fun layer => !layer.allow.isEmpty).getLast?.map
          allow).getD default.allow, patternMatches pattern name = true) ↔
      ∀ top ∈ (layers.filter fun layer => !layer.allow.isEmpty).getLast?,
        ∃ pattern ∈ top.allow, patternMatches pattern name = true := by
    cases htop : (layers.filter fun layer => !layer.allow.isEmpty).getLast? with
    | none => exact iff_of_true (.inl rfl) fun _ h => by cases h
    | some top =>
      -- the last layer that allows anything is not empty
      have hne : top.allow ≠ [] := by
        have hmem := (mem_filter.mp (mem_of_getLast? htop)).2
        rw [Bool.not_eq_true'] at hmem
        intro heq
        rw [heq] at hmem
        cases hmem
      constructor
      · rintro (heq | hmatch) _ h
        · exact absurd heq hne
        · cases h
          exact hmatch
      · intro h
        exact .inr (h top rfl)
  rw [hdeny, hallow]
  exact ⟨fun h => ⟨h.1, h.2⟩, fun h => ⟨h.denied, h.allowed⟩⟩

end ToolPolicy

theorem foldl_filterMap_id (layers : List (Option ToolPolicy)) (policy : ToolPolicy) :
    (layers.filterMap id).foldl mergeWith policy =
      (layers.map fun layer => layer.getD .default).foldl mergeWith policy := by
  induction layers generalizing policy with
  | nil => rfl
  | cons layer layers ih =>
    rw [map_cons, foldl_cons, ← ih]
    cases layer with
    | none =>
      rw [Option.getD_none, mergeWith_default]
      rfl
    | some layer => rfl

theorem resolveEffectivePolicy_eq (config : ChelixConfig) (context : PolicyContext) :
    resolveEffectivePolicy config context =
      (applicableLayers config context).foldl mergeWith .default := by
  unfold applicableLayers
  rw [foldl_filterMap_id]
  unfold resolveEffectivePolicy layerOptions
  simp only [map_cons, map_nil, foldl_cons, foldl_nil,
    mergeLayer_eq, mergeSome_eq, Option.getD_some]
  congr 1
  cases groupPolicy config context with
  | none =>
    simp only [Option.map_none, Option.bind_none, Option.getD_none, mergeWith_default]
    cases profileLayer config.toolsPolicy.profile with
    | none | some profile => rfl
  | some group =>
    cases profileLayer config.toolsPolicy.profile with
    | none | some profile => rfl

/-! ## Denying more -/

/-- A policy that allows the same and denies at least as much. -/
structure Restricts (policy policy' : ToolPolicy) : Prop where
  allow : policy'.allow = policy.allow
  deny : policy.deny ⊆ policy'.deny

namespace Restricts

variable {policy policy' layer layer' : ToolPolicy}

theorem refl (policy : ToolPolicy) : Restricts policy policy := ⟨rfl, List.Subset.refl _⟩

theorem mergeWith (h : Restricts policy policy') (hlayer : Restricts layer layer') :
    Restricts (policy.mergeWith layer) (policy'.mergeWith layer') where
  allow := by
    unfold ToolPolicy.mergeWith
    rw [h.allow, hlayer.allow]
  deny := by
    intro pattern hpattern
    rcases mem_append.mp hpattern with hmem | hmem
    · exact mem_append_left _ (h.deny hmem)
    · exact mem_append_right _ (hlayer.deny hmem)

theorem foldl {layers layers' : List (Option ToolPolicy)} (h : Restricts policy policy')
    (hlayers : List.Forall₂ (fun layer layer' : Option ToolPolicy =>
      Restricts (layer.getD .default) (layer'.getD .default)) layers layers') :
    Restricts ((layers.map fun layer => layer.getD .default).foldl ToolPolicy.mergeWith policy)
      ((layers'.map fun layer => layer.getD .default).foldl ToolPolicy.mergeWith policy') := by
  induction hlayers generalizing policy policy' with
  | nil => exact h
  | cons hlayer _ ih => exact ih (h.mergeWith hlayer)

theorem isAllowed (h : Restricts policy policy') {name : String}
    (hallowed : policy'.isAllowed name = true) : policy.isAllowed name = true := by
  rw [isAllowed_iff] at hallowed ⊢
  obtain ⟨hdeny, hallow⟩ := hallowed
  rw [h.allow] at hallow
  exact ⟨fun pattern hpattern => hdeny pattern (h.deny hpattern), hallow⟩

end Restricts

theorem Inserts.subset {entry : String} {entries entries' : List String}
    (h : Inserts entry entries entries') : entries ⊆ entries' := by
  obtain ⟨before, after, rfl, rfl⟩ := h
  intro pattern hpattern
  rcases mem_append.mp hpattern with hmem | hmem
  · exact mem_append_left _ hmem
  · exact mem_append_right _ (mem_cons_of_mem _ hmem)

/-- A configured policy that denies at least as much. -/
structure TightensPolicy (cfg cfg' : ToolPolicyConfig) : Prop where
  profile : cfg'.profile = cfg.profile
  allow : cfg'.allow = cfg.allow
  deny : cfg.deny ⊆ cfg'.deny

namespace TightensPolicy

theorem refl (cfg : ToolPolicyConfig) : TightensPolicy cfg cfg := ⟨rfl, rfl, List.Subset.refl _⟩

theorem of_inserts {entry : String} {cfg : ToolPolicyConfig} {deny : List String}
    (h : Inserts entry cfg.deny deny) : TightensPolicy cfg { cfg with deny } := ⟨rfl, rfl, h.subset⟩

theorem restricts {cfg cfg' : ToolPolicyConfig} (h : TightensPolicy cfg cfg') :
    Restricts (policyFromConfig cfg) (policyFromConfig cfg') := by
  unfold policyFromConfig
  rw [h.profile, mergeLayer_eq, mergeLayer_eq]
  exact (Restricts.refl _).mergeWith ⟨h.allow, h.deny⟩

end TightensPolicy

/-- A policy of a chat type that denies at least as much, to everyone and to each sender. -/
structure TightensGroup (group group' : GroupToolPolicy) : Prop where
  allow : group'.allow = group.allow
  deny : group.deny ⊆ group'.deny
  senders : ∀ senderId, TightensPolicy ((group.bySender.lookup senderId).getD .default)
    ((group'.bySender.lookup senderId).getD .default)

theorem TightensGroup.refl (group : GroupToolPolicy) : TightensGroup group group :=
  ⟨rfl, List.Subset.refl _, fun _ => .refl _⟩

/-- A configuration each of whose layers denies at least as much. -/
structure Tightens (config config' : ChelixConfig) : Prop where
  tools : TightensPolicy config.toolsPolicy config'.toolsPolicy
  providers : ∀ name : String,
    TightensPolicy ((config.providers[name]?.bind ProviderEntry.policy).getD .default)
      ((config'.providers[name]?.bind ProviderEntry.policy).getD .default)
  agents : ∀ id : String, Restricts ((config.agents[id]?.map agentPolicy).getD .default)
    ((config'.agents[id]?.map agentPolicy).getD .default)
  groups : ∀ channel accountId groupId,
    TightensGroup (((groupsOf config.channels channel accountId).lookup groupId).getD .default)
      (((groupsOf config'.channels channel accountId).lookup groupId).getD .default)
  sandbox : TightensPolicy ((sandboxPolicy config).getD .default)
    ((sandboxPolicy config').getD .default)

theorem Tightens.refl (config : ChelixConfig) : Tightens config config where
  tools := .refl _
  providers _ := .refl _
  agents _ := .refl _
  groups _ _ _ := .refl _
  sandbox := .refl _

/-! ## One entry more -/

section Edits

variable {entry : String} {config : ChelixConfig}

theorem Updates.forall_getD {α : Type} {P : α → α → Prop} {key : String} {value default : α}
    {entries entries' : List (String × α)} (h : Updates key value entries entries')
    (hrefl : ∀ a, P a a) (hvalue : P ((entries.lookup key).getD default) value) (key' : String) :
    P ((entries.lookup key').getD default) ((entries'.lookup key').getD default) := by
  by_cases heq : key' = key
  · subst heq
    rw [h.1]
    exact hvalue
  · rw [h.2 key' heq]
    exact hrefl _

theorem ReplacesOverride.tightens {channels channels' : ChannelsConfig}
    {channel accountId : String} {groups : List (String × GroupToolPolicy)}
    (h : ReplacesOverride channel accountId groups channels channels')
    (hgroups : ∀ groupId, TightensGroup
      (((groupsOf channels channel accountId).lookup groupId).getD .default)
      ((groups.lookup groupId).getD .default)) (channel' accountId' groupId : String) :
    TightensGroup (((groupsOf channels channel' accountId').lookup groupId).getD .default)
      (((groupsOf channels' channel' accountId').lookup groupId).getD .default) := by
  by_cases heq : (channel', accountId') = (channel, accountId)
  · cases heq
    have hnew : groupsOf channels' channel accountId = groups := by
      unfold groupsOf
      rw [h.override]
      rfl
    rw [hnew]
    exact hgroups groupId
  · have hsame : groupsOf channels' channel' accountId' = groupsOf channels channel' accountId' := by
      unfold groupsOf
      rw [h.others channel' accountId' heq]
    rw [hsame]
    exact .refl _

theorem restricts_insert_agent {id : String} {agent agent' : AgentConfig}
    (hagent : config.agents[id]? = some agent)
    (h : Restricts (agentPolicy agent) (agentPolicy agent')) (id' : String) :
    Restricts ((config.agents[id']?.map agentPolicy).getD .default)
      (((config.agents.insert id agent')[id']?.map agentPolicy).getD .default) := by
  by_cases heq : id = id'
  · subst heq
    rw [OrderedMap.get_insert_self, hagent]
    exact h
  · rw [OrderedMap.get_insert_of_ne _ heq]
    exact .refl _

theorem restricts_hidden_server {agent : AgentConfig} {servers servers' : List String}
    (hmcp : agent.mcp = .all ∧ servers = [] ∨ agent.mcp = .deny servers)
    (h : Inserts entry servers servers') :
    Restricts (agentPolicy agent) (agentPolicy { agent with mcp := .deny servers' }) where
  allow := rfl
  deny := by
    unfold agentPolicy
    rcases hmcp with ⟨hall, -⟩ | hdeny
    · rw [hall]
      exact subset_append_left _ _
    · rw [hdeny]
      intro pattern hpattern
      rcases mem_append.mp hpattern with hmem | hmem
      · exact mem_append_left _ hmem
      · obtain ⟨server, hserver, rfl⟩ := mem_map.mp hmem
        exact mem_append_right _ (mem_map_of_mem (h.subset hserver))

theorem restricts_denied_tool {agent : AgentConfig} {deny : List String}
    (h : Inserts entry agent.tools.deny deny) :
    Restricts (agentPolicy agent) (agentPolicy { agent with tools.deny := deny }) where
  allow := rfl
  deny := by
    unfold agentPolicy
    cases agent.mcp with
    | all | allow servers => exact h.subset
    | deny servers =>
      exact append_subset.mpr
        ⟨fun _ hmem => mem_append_left _ (h.subset hmem), subset_append_right _ _⟩

theorem AddsDeny.tightens {config' : ChelixConfig} (h : AddsDeny entry config config') :
    Tightens config config' := by
  cases h with
  | globally h => exact { Tightens.refl config with tools := .of_inserts h }
  | @provider name provider deny hprovider h =>
    refine { Tightens.refl config with providers := fun name' => ?_ }
    by_cases heq : name = name'
    · subst heq
      rw [OrderedMap.get_insert_self, hprovider]
      exact .of_inserts h
    · rw [OrderedMap.get_insert_of_ne _ heq]
      exact .refl _
  | agent hagent h =>
    exact { Tightens.refl config with
      agents := restricts_insert_agent hagent (restricts_denied_tool h) }
  | server hagent hmcp h =>
    exact { Tightens.refl config with
      agents := restricts_insert_agent hagent (restricts_hidden_server hmcp h) }
  | group hchannels hgroup h hgroups =>
    refine { Tightens.refl config with
      groups := hchannels.tightens fun groupId =>
        hgroups.forall_getD TightensGroup.refl ?_ groupId }
    rw [hgroup]
    exact ⟨rfl, h.subset, fun _ => .refl _⟩
  | sender hchannels hgroup hsender h hsenders hgroups =>
    refine { Tightens.refl config with
      groups := hchannels.tightens fun groupId =>
        hgroups.forall_getD TightensGroup.refl ?_ groupId }
    rw [hgroup]
    refine ⟨rfl, List.Subset.refl _, fun senderId => ?_⟩
    refine hsenders.forall_getD TightensPolicy.refl ?_ senderId
    rw [hsender]
    exact .of_inserts h
  | sandbox h =>
    refine { Tightens.refl config with sandbox := ?_ }
    unfold sandboxPolicy
    split
    · exact .of_inserts h
    · exact .refl _

end Edits

/-! ## The layers of a stricter configuration -/

section Layers

variable {config config' : ChelixConfig}

theorem groupPolicy_eq (config : ChelixConfig) (context : PolicyContext) :
    groupPolicy config context =
      context.channel.bind fun channel => context.channelAccountId.bind fun accountId =>
        context.groupId.bind fun groupId =>
          (groupsOf config.channels channel accountId).lookup groupId := by
  unfold groupPolicy groupsOf
  simp only [Option.bind_eq_bind]
  congr 1
  funext channel
  congr 1
  funext accountId
  cases config.channels.toolPolicyForAccount channel accountId with
  | none | some override => rfl

theorem Tightens.group (h : Tightens config config') (context : PolicyContext) :
    TightensGroup ((groupPolicy config context).getD .default)
      ((groupPolicy config' context).getD .default) := by
  rw [groupPolicy_eq, groupPolicy_eq]
  cases context.channel with
  | none => exact .refl _
  | some channel =>
    cases context.channelAccountId with
    | none => exact .refl _
    | some accountId =>
      cases context.groupId with
      | none => exact .refl _
      | some groupId => exact h.groups channel accountId groupId

theorem Tightens.provider (h : Tightens config config') (context : PolicyContext) :
    TightensPolicy ((providerPolicy config context).getD .default)
      ((providerPolicy config' context).getD .default) := by
  unfold providerPolicy
  cases context.provider with
  | none => exact .refl _
  | some name => exact h.providers name

theorem TightensGroup.sender {group group' : GroupToolPolicy} (h : TightensGroup group group')
    (context : PolicyContext) :
    TightensPolicy ((senderPolicy context group).getD .default)
      ((senderPolicy context group').getD .default) := by
  unfold senderPolicy
  cases context.senderId with
  | none => exact .refl _
  | some senderId => exact h.senders senderId

/-- A layer that does not apply is one without lists. -/
theorem getD_map_policyFromConfig (cfg : Option ToolPolicyConfig) :
    (cfg.map policyFromConfig).getD .default = policyFromConfig (cfg.getD .default) := by
  cases cfg with
  | none | some cfg => rfl

theorem TightensPolicy.layer {cfg cfg' : Option ToolPolicyConfig}
    (h : TightensPolicy (cfg.getD .default) (cfg'.getD .default)) :
    Restricts ((cfg.map policyFromConfig).getD .default)
      ((cfg'.map policyFromConfig).getD .default) := by
  rw [getD_map_policyFromConfig, getD_map_policyFromConfig]
  exact h.restricts

/-- Nobody is a sender of a chat type without a policy. -/
theorem getD_bind_senderPolicy (group : Option GroupToolPolicy) (context : PolicyContext) :
    ((group.bind (senderPolicy context)).getD .default) =
      (senderPolicy context (group.getD .default)).getD .default := by
  cases group with
  | some group => rfl
  | none =>
    unfold senderPolicy
    cases context.senderId with
    | none | some senderId => rfl

theorem getD_map_groupLists (group : Option GroupToolPolicy) :
    (group.map fun group => (⟨group.allow, group.deny⟩ : ToolPolicy)).getD .default =
      ⟨(group.getD .default).allow, (group.getD .default).deny⟩ := by
  cases group with
  | none | some group => rfl

theorem Tightens.layers (h : Tightens config config') (context : PolicyContext) :
    List.Forall₂ (fun layer layer' : Option ToolPolicy =>
      Restricts (layer.getD .default) (layer'.getD .default))
      (layerOptions config context) (layerOptions config' context) := by
  have hgroup := h.group context
  have hsender : TightensPolicy
      (((groupPolicy config context).bind (senderPolicy context)).getD .default)
      (((groupPolicy config' context).bind (senderPolicy context)).getD .default) := by
    rw [getD_bind_senderPolicy, getD_bind_senderPolicy]
    exact hgroup.sender context
  refine .cons ?_ <| .cons ?_ <| .cons (h.provider context).layer <|
    .cons (h.agents context.agentId) <| .cons ?_ <| .cons hsender.layer <|
    .cons h.sandbox.layer .nil
  · rw [h.tools.profile]
    exact .refl _
  · exact ⟨h.tools.allow, h.tools.deny⟩
  · rw [getD_map_groupLists, getD_map_groupLists]
    exact ⟨hgroup.allow, hgroup.deny⟩

end Layers

/-- A configuration that allows the tools of the coding profile. -/
def codingConfig : ChelixConfig where
  toolsPolicy := ⟨[], [], some "coding"⟩
  providers := ∅
  agents := ∅
  channels := ⟨∅, ∅⟩
  sandboxMode := .on
  sandboxToolsPolicy := none

/-- A context of which only the agent is known. -/
def agentContext (agentId : String) : PolicyContext where
  agentId := agentId
  provider := none
  channel := none
  channelAccountId := none
  groupId := none
  senderId := none

end Chelix.Tools
