import Argus.AiService.PromptGuard
import Argus.Api.Authorization
import Argus.Approvals.Requests
import Argus.Audit.Append
import Argus.Audit.MigrationSafety
import Argus.Incidents.Alternation
import Argus.Incidents.InferredRoots
import Argus.Incidents.Persistence
import Argus.Incidents.Routing
import Argus.Incidents.Severity
import Argus.Migrations.AppliedOnce
import Argus.Migrations.LintColumns
import Argus.Policy.Engine
import Argus.Rca.Checker
import Argus.Rca.Execution
import Argus.Rca.Support
import Argus.Remediation.SequentialProposals
import Argus.System.ActiveRemediations
import Argus.System.ApprovedAction
import Argus.System.AuditTrail
import Argus.System.Authorized
import Argus.System.HeliosOutcomes
import Argus.System.OutboxDelivery
import Argus.System.Redispatch
import Argus.System.StatusHistory
import Argus.Topology.BestRoot
import Argus.Topology.Partition
import Argus.Workers.ControlStore
