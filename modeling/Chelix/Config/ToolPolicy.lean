import Chelix.Library.Decode
import Chelix.Library.OrderedMap

/-!
# Tool policies of the configuration

The parts of the configuration that restrict tools.  The accounts of a channel are JSON values,
whose policies are decoded when they are looked up; an account whose policy cannot be decoded has
none.
-/

namespace Chelix.Config

open Chelix.Library

structure ToolPolicyConfig where
  allow : List String
  deny : List String
  profile : Option String
  deriving DecidableEq

def ToolPolicyConfig.default : ToolPolicyConfig where
  allow := []
  deny := []
  profile := none

/-- The MCP servers that an agent sees. -/
inductive AgentMcpPolicy where
  | all
  | allow (servers : List String)
  | deny (servers : List String)
  deriving DecidableEq

/-- The pattern that denies all tools of a server. -/
def toDenyPattern (server : String) : String := "mcp__" ++ server ++ "__*"

structure AgentToolPolicy where
  allow : List String
  deny : List String

structure AgentConfig where
  tools : AgentToolPolicy
  mcp : AgentMcpPolicy

structure ProviderEntry where
  policy : Option ToolPolicyConfig

inductive SandboxMode where
  | on
  | off
  deriving DecidableEq

/-! ## Channels -/

/-- The policy of a chat type, with those of its senders. -/
structure GroupToolPolicy where
  allow : List String
  deny : List String
  bySender : List (String × ToolPolicyConfig)
  deriving DecidableEq

def GroupToolPolicy.default : GroupToolPolicy where
  allow := []
  deny := []
  bySender := []

structure ChannelToolPolicyOverride where
  groups : List (String × GroupToolPolicy)
  deriving DecidableEq

/-- A map from the names of an object. -/
def decodeMap {α : Type} (decoder : Decoder α) : Decoder (List (String × α))
  | .obj fields => fields.mapM fun field => (decoder field.2).map fun value => (field.1, value)
  | _ => none

def decodeToolPolicyConfig : Decoder ToolPolicyConfig := fun value => do
  match ← Decoder.fields ["allow", "deny", "profile"] value with
  | [allow, deny, profile] =>
    some
      { allow := ← Decoder.defaulted (Decoder.list Decoder.string) [] allow
        deny := ← Decoder.defaulted (Decoder.list Decoder.string) [] deny
        profile := ← Decoder.optional Decoder.string profile }
  | _ => none

def decodeGroupToolPolicy : Decoder GroupToolPolicy := fun value => do
  match ← Decoder.fields ["allow", "deny", "by_sender"] value with
  | [allow, deny, bySender] =>
    some
      { allow := ← Decoder.defaulted (Decoder.list Decoder.string) [] allow
        deny := ← Decoder.defaulted (Decoder.list Decoder.string) [] deny
        bySender := ← Decoder.defaulted (decodeMap decodeToolPolicyConfig) [] bySender }
  | _ => none

def decodeChannelToolPolicyOverride : Decoder ChannelToolPolicyOverride := fun value => do
  match ← Decoder.fields ["groups"] value with
  | [groups] => some ⟨← Decoder.defaulted (decodeMap decodeGroupToolPolicy) [] groups⟩
  | _ => none

/-- The accounts of the channels. -/
structure ChannelsConfig where
  telegram : OrderedMap String Json
  telephony : OrderedMap String Json

namespace ChannelsConfig

def allChannelConfigs (channels : ChannelsConfig) : List (String × OrderedMap String Json) :=
  [("telegram", channels.telegram), ("telephony", channels.telephony)]

def toolPolicyForAccount (channels : ChannelsConfig) (channelType accountId : String) :
    Option ChannelToolPolicyOverride := do
  let accounts ← channels.allChannelConfigs.lookup channelType
  let account ← accounts[accountId]?
  let tools ← account.get "tools"
  decodeChannelToolPolicyOverride tools

end ChannelsConfig

/-! ## The configuration -/

structure ChelixConfig where
  toolsPolicy : ToolPolicyConfig
  providers : OrderedMap String ProviderEntry
  agents : OrderedMap String AgentConfig
  channels : ChannelsConfig
  sandboxMode : SandboxMode
  sandboxToolsPolicy : Option ToolPolicyConfig

end Chelix.Config
