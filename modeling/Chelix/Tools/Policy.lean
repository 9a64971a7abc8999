import Chelix.Config.ToolPolicy

/-!
# The effective tool policy

The layers of the configuration that apply to a context are merged into one policy: what a layer
denies stays denied, and what it allows replaces what the layers before it allow.
-/

namespace Chelix.Tools

open Chelix.Library Chelix.Config

/-! ## Policies -/

structure ToolPolicy where
  allow : List String
  deny : List String
  deriving DecidableEq

/-- A pattern is a name, or the beginning of names with a star behind it. -/
def patternMatches (pattern name : String) : Bool :=
  if pattern = "*" then true
  else
    match pattern.toList.getLast? with
    | some '*' => pattern.toList.dropLast.isPrefixOf name.toList
    | _ => pattern = name

namespace ToolPolicy

def default : ToolPolicy where
  allow := []
  deny := []

def isAllowed (policy : ToolPolicy) (toolName : String) : Bool :=
  if policy.deny.any fun pattern => patternMatches pattern toolName then false
  else policy.allow.isEmpty || policy.allow.any fun pattern => patternMatches pattern toolName

/-- A policy with one of higher precedence over it. -/
def mergeWith (policy other : ToolPolicy) : ToolPolicy where
  allow := if other.allow.isEmpty then policy.allow else other.allow
  deny := policy.deny ++ other.deny

/-- A policy with a layer over it; an empty layer is skipped. -/
def mergeLayer (policy layer : ToolPolicy) : ToolPolicy :=
  if !layer.allow.isEmpty || !layer.deny.isEmpty then policy.mergeWith layer else policy

/-- A policy with a layer over it, if the layer applies. -/
def mergeSome (policy : ToolPolicy) : Option ToolPolicy → ToolPolicy
  | some layer => policy.mergeLayer layer
  | none => policy

end ToolPolicy

def profileTools (profile : String) : ToolPolicy :=
  if profile = "minimal" then ⟨["execute_command"], []⟩
  else if profile = "coding" then ⟨["execute_command", "memory"], []⟩
  else if profile = "full" then ⟨["*"], []⟩
  else .default

/-- The tools of a profile that is set. -/
def profileLayer (profile : Option String) : Option ToolPolicy :=
  (profile.filter fun profile => !profile.isEmpty).map profileTools

/-- The policy of a configuration: its lists over its profile. -/
def policyFromConfig (cfg : ToolPolicyConfig) : ToolPolicy :=
  ((profileLayer cfg.profile).getD .default).mergeLayer ⟨cfg.allow, cfg.deny⟩

/-! ## Layers -/

structure PolicyContext where
  agentId : String
  provider : Option String
  channel : Option String
  channelAccountId : Option String
  groupId : Option String
  senderId : Option String

section Layers

variable (config : ChelixConfig) (context : PolicyContext)

def providerPolicy : Option ToolPolicyConfig := do
  let providerName ← context.provider
  let entry ← config.providers[providerName]?
  entry.policy

/-- The lists of an agent, with the servers that it must not see. -/
def agentPolicy (agent : AgentConfig) : ToolPolicy where
  allow := agent.tools.allow
  deny :=
    match agent.mcp with
    | .all => agent.tools.deny
    | .deny servers => agent.tools.deny ++ servers.map toDenyPattern
    | .allow _ => agent.tools.deny

def groupPolicy : Option GroupToolPolicy := do
  let channel ← context.channel
  let accountId ← context.channelAccountId
  let groupId ← context.groupId
  let override ← config.channels.toolPolicyForAccount channel accountId
  override.groups.lookup groupId

def senderPolicy (group : GroupToolPolicy) : Option ToolPolicyConfig := do
  let senderId ← context.senderId
  group.bySender.lookup senderId

def sandboxPolicy : Option ToolPolicyConfig :=
  if config.sandboxMode = .on then config.sandboxToolsPolicy else none

def resolveEffectivePolicy : ToolPolicy :=
  let effective := ToolPolicy.default
  let effective :=
    match profileLayer config.toolsPolicy.profile with
    | some profile => effective.mergeWith profile
    | none => effective
  let effective := effective.mergeLayer ⟨config.toolsPolicy.allow, config.toolsPolicy.deny⟩
  let effective := effective.mergeSome ((providerPolicy config context).map policyFromConfig)
  let effective := effective.mergeSome (config.agents[context.agentId]?.map agentPolicy)
  let effective :=
    match groupPolicy config context with
    | some group =>
      let effective := effective.mergeLayer ⟨group.allow, group.deny⟩
      effective.mergeSome ((senderPolicy context group).map policyFromConfig)
    | none => effective
  effective.mergeSome ((sandboxPolicy config).map policyFromConfig)

/-! ## What the layers permit -/

/-- The layers in their order; one that does not apply is missing. -/
def layerOptions : List (Option ToolPolicy) :=
  [profileLayer config.toolsPolicy.profile,
    some ⟨config.toolsPolicy.allow, config.toolsPolicy.deny⟩,
    (providerPolicy config context).map policyFromConfig,
    config.agents[context.agentId]?.map agentPolicy,
    (groupPolicy config context).map fun group => ⟨group.allow, group.deny⟩,
    ((groupPolicy config context).bind (senderPolicy context)).map policyFromConfig,
    (sandboxPolicy config).map policyFromConfig]

def applicableLayers : List ToolPolicy := (layerOptions config context).filterMap id

end Layers

/-- No layer denies a tool, and the last one that allows anything allows it. -/
structure Permits (layers : List ToolPolicy) (name : String) : Prop where
  denied : ∀ layer ∈ layers, ∀ pattern ∈ layer.deny, patternMatches pattern name = false
  allowed : ∀ top ∈ (layers.filter fun layer => !layer.allow.isEmpty).getLast?,
    ∃ pattern ∈ top.allow, patternMatches pattern name = true

/-! ## Denying more -/

/-- A list with one entry more. -/
def Inserts (entry : String) (entries entries' : List String) : Prop :=
  ∃ before after, entries = before ++ after ∧ entries' = before ++ entry :: after

/-- The policy of one account is another one, and that of every other account is the same. -/
structure ReplacesOverride (channel accountId : String) (groups : List (String × GroupToolPolicy))
    (channels channels' : ChannelsConfig) : Prop where
  override : channels'.toolPolicyForAccount channel accountId = some ⟨groups⟩
  others : ∀ channel' accountId', (channel', accountId') ≠ (channel, accountId) →
    channels'.toolPolicyForAccount channel' accountId' =
      channels.toolPolicyForAccount channel' accountId'

def groupsOf (channels : ChannelsConfig) (channel accountId : String) :
    List (String × GroupToolPolicy) :=
  ((channels.toolPolicyForAccount channel accountId).map
    ChannelToolPolicyOverride.groups).getD []

/-- A map in which one key has another value. -/
def Updates {α : Type} (key : String) (value : α) (entries entries' : List (String × α)) : Prop :=
  entries'.lookup key = some value ∧ ∀ key', key' ≠ key → entries'.lookup key' = entries.lookup key'

/-- One entry more is denied in one layer of a configuration; where the layer had no policy, it
gets one that only denies. -/
inductive AddsDeny (entry : String) (config : ChelixConfig) : ChelixConfig → Prop
  | globally {deny : List String} (h : Inserts entry config.toolsPolicy.deny deny) :
      AddsDeny entry config { config with toolsPolicy.deny := deny }
  | provider {name : String} {provider : ProviderEntry} {deny : List String}
      (hprovider : config.providers[name]? = some provider)
      (h : Inserts entry (provider.policy.getD .default).deny deny) :
      AddsDeny entry config
        { config with
          providers := config.providers.insert name
            { provider with policy := some { provider.policy.getD .default with deny } } }
  | agent {id : String} {agent : AgentConfig} {deny : List String}
      (hagent : config.agents[id]? = some agent) (h : Inserts entry agent.tools.deny deny) :
      AddsDeny entry config
        { config with agents := config.agents.insert id { agent with tools.deny := deny } }
  /-- A server is denied to an agent that sees all of them, or all but some. -/
  | server {id : String} {agent : AgentConfig} {servers servers' : List String}
      (hagent : config.agents[id]? = some agent)
      (hmcp : agent.mcp = .all ∧ servers = [] ∨ agent.mcp = .deny servers)
      (h : Inserts entry servers servers') :
      AddsDeny entry config
        { config with agents := config.agents.insert id { agent with mcp := .deny servers' } }
  | group {channel accountId groupId : String} {groups : List (String × GroupToolPolicy)}
      {group : GroupToolPolicy} {deny : List String} {channels : ChannelsConfig}
      (hchannels : ReplacesOverride channel accountId groups config.channels channels)
      (hgroup : ((groupsOf config.channels channel accountId).lookup groupId).getD .default = group)
      (h : Inserts entry group.deny deny)
      (hgroups : Updates groupId { group with deny }
        (groupsOf config.channels channel accountId) groups) :
      AddsDeny entry config { config with channels }
  | sender {channel accountId groupId senderId : String}
      {groups : List (String × GroupToolPolicy)} {group : GroupToolPolicy}
      {senders : List (String × ToolPolicyConfig)} {policy : ToolPolicyConfig}
      {deny : List String} {channels : ChannelsConfig}
      (hchannels : ReplacesOverride channel accountId groups config.channels channels)
      (hgroup : ((groupsOf config.channels channel accountId).lookup groupId).getD .default = group)
      (hsender : (group.bySender.lookup senderId).getD .default = policy)
      (h : Inserts entry policy.deny deny)
      (hsenders : Updates senderId { policy with deny } group.bySender senders)
      (hgroups : Updates groupId { group with bySender := senders }
        (groupsOf config.channels channel accountId) groups) :
      AddsDeny entry config { config with channels }
  | sandbox {deny : List String}
      (h : Inserts entry (config.sandboxToolsPolicy.getD .default).deny deny) :
      AddsDeny entry config
        { config with
          sandboxToolsPolicy := some { config.sandboxToolsPolicy.getD .default with deny } }

end Chelix.Tools
