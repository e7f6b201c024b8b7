import Windrose.Query.SlotFairness
import Windrose.Query.BrokerRuns
import Windrose.Query.CacheKey
import Windrose.Rbac.PolicyParity
import Windrose.Rbac.InputParity
import Windrose.Rbac.WriteRuns
import Windrose.Rbac.Grants
import Windrose.Rbac.Merging
import Windrose.Audit.Ingest
import Windrose.Audit.Reconcile
import Windrose.Gateway.FallbackRuns
import Windrose.Events.ConsumerGroup
import Windrose.Gateway.KeyRuns
import Windrose.Gateway.Redaction
import Windrose.Gateway.Routing
import Windrose.Identity.SigningKeys
import Windrose.ToolPlane.KillRuns
import Windrose.Writebacks.Runs
import Windrose.Agents.Kills
import Windrose.Semantic.JoinGraph
import Windrose.Semantic.Having
import Windrose.Semantic.MultiPlan
import Windrose.Semantic.Barrier
import Windrose.Semantic.CompileCache
import Windrose.Semantic.Publication
import Windrose.Usage.RollupRuns
import Windrose.Usage.Chargeback
import Windrose.Usage.BudgetRuns
import Windrose.Cases.TimerRuns
import Windrose.Cases.Triggers
import Windrose.Pipelines.Resources
import Windrose.Pipelines.LifecycleRuns
import Windrose.Pipelines.Schedules
import Windrose.Rbac.Drift
import Windrose.Rbac.LastAdmin
import Windrose.Query.Paging
import Windrose.Query.Redact
import Windrose.Query.Constraints
import Windrose.Gateway.Preflight
import Windrose.Audit.Linkage
import Windrose.Audit.SiemFormat
import Windrose.Packs.InstallerRuns
import Windrose.Notifications.WebhookRuns
import Windrose.Notifications.PipelineRuns
import Windrose.X12.Lineage
import Windrose.Hl7v2.Segments
import Windrose.ToolPlane.RateLimit
import Windrose.Uploads.Retries
import Windrose.Agents.Decisions
import Windrose.Semantic.Filtered
import Windrose.Realtime.Sse
import Windrose.Realtime.Caps
import Windrose.ToolPlane.TenantGuard
