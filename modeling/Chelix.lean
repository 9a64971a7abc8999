import Chelix.Agents.ArgumentIdentity
import Chelix.Agents.BlobStripping
import Chelix.Agents.CleanResponse
import Chelix.Agents.LoopEscalation
import Chelix.Agents.Model.RecordedOutcomes
import Chelix.Agents.QuotedCode
import Chelix.Agents.RepairedText
import Chelix.Agents.TruncationBounds
import Chelix.Auth.SessionLaw
import Chelix.Auth.SetupLaw
import Chelix.Channels.Gating
import Chelix.Channels.Otp
import Chelix.Channels.OtpLaw
import Chelix.Channels.Registry
import Chelix.Chat.ActiveContext
import Chelix.Chat.CompactionLaw
import Chelix.Chat.PermissionLaw
import Chelix.Chat.TimeoutLaw
import Chelix.CodeIndex.FusionLaw
import Chelix.CodeIndex.HybridSearch
import Chelix.CodeIndex.IndexLaw
import Chelix.Common.HookLaw
import Chelix.Common.Materialization
import Chelix.Common.RejectedUpdates
import Chelix.Config.ContainerMounts
import Chelix.Cron.Edits
import Chelix.Cron.FileStore
import Chelix.Cron.Intervals
import Chelix.Cron.Refusals
import Chelix.Cron.TimerLoop
import Chelix.Gateway.A2uiBroker
import Chelix.Gateway.BrokerLaw
import Chelix.Gateway.BrokerRuns
import Chelix.Gateway.ChatStatusOutbox
import Chelix.Gateway.SubscriptionLaw
import Chelix.Gateway.SurfaceLaw
import Chelix.Httpd.LoginLaw
import Chelix.Library.Best
import Chelix.Library.Entries
import Chelix.Library.Fusion
import Chelix.Library.Wildcards
import Chelix.Memory.EmbedLaw
import Chelix.Memory.EmbedPayload
import Chelix.Memory.HybridSearch
import Chelix.Memory.MemoryWrites
import Chelix.Memory.SyncFile
import Chelix.Memory.SyncIdempotence
import Chelix.Memory.SyncLaw
import Chelix.Memory.SyncRuns
import Chelix.Memory.VectorSearch
import Chelix.Providers.CallDelivery
import Chelix.Providers.RelaxedSchemas
import Chelix.Providers.SchemaNormalization
import Chelix.Providers.ThinkTags
import Chelix.Secrets.Migration
import Chelix.Sessions.ChannelListing
import Chelix.Sessions.ForkPrefix
import Chelix.Sessions.ListingLaw
import Chelix.Sessions.LiveRun
import Chelix.Sessions.PageLaw
import Chelix.Sessions.PromptDelivery
import Chelix.Sessions.ResultOwners
import Chelix.Sessions.SchemaLaw
import Chelix.Sessions.SearchSnippet
import Chelix.Sessions.SessionForest
import Chelix.Sessions.Truncation
import Chelix.Splitter.ChunkLaw
import Chelix.Splitter.Markdown
import Chelix.Telephony.CallLaw
import Chelix.Tools.Approval
import Chelix.Tools.PolicyLaw
import Chelix.Tools.SandboxOwners
import Chelix.Tools.SessionPolicy
import Chelix.Tools.TaskListLaw
import Chelix.ToolsService.EditLaw
import Chelix.ToolsService.ReadViews
import Chelix.ToolsService.WriteSerialization
import Chelix.Webhooks.Ingress
import Chelix.Webhooks.RateLimit
import Chelix.Webhooks.Worker
