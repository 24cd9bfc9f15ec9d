import Argus.Base.ServeMux
import Argus.Auth.Permissions

/-!
# Routing of the HTTP API

`internal/api/server.go` and `internal/api/deadletters.go`: the patterns `Handler` registers and,
for each handler, the method and path checks it makes before it does anything. A handler's result
here is what these checks select; the request body is read afterwards.
-/

namespace Argus.Api

open Strings
open Auth (Permission)

abbrev Method := String

/-- Operations that need more than the view permission. -/
inductive Operation
  | ingestAlertmanager
  | ingestManualSignal
  | createIncident
  | acknowledgeIncident
  | resolveIncident
  | generateRCA
  | suggestRemediations
  | proposeRemediations
  | approveRemediation
  | rejectRemediation
  | executeRemediation
  | cancelRemediation
  | decideApproval
  | listAudit
  | verifyAudit
  | listDeadLetters
  | replayDeadLetter
  | discardDeadLetter
  | createService
  | upsertDependency
  | reindexRunbooks
deriving DecidableEq, Repr

/-- The permission an operation is guarded by. -/
def Operation.permission : Operation → Permission
  | .ingestAlertmanager | .ingestManualSignal => .ingestSignal
  | .createIncident | .acknowledgeIncident | .resolveIncident => .manageIncident
  | .generateRCA | .suggestRemediations => .generateRCA
  | .proposeRemediations => .proposeRemediation
  | .approveRemediation | .rejectRemediation | .decideApproval => .approveRemediation
  | .executeRemediation | .cancelRemediation => .executeRemediation
  | .listAudit | .verifyAudit => .viewAudit
  | .listDeadLetters | .replayDeadLetter | .discardDeadLetter => .manageDeadLetters
  | .createService | .upsertDependency => .manageService
  | .reindexRunbooks => .reindexRunbook

/-- Read-only answers. -/
inductive View
  | health
  | ready
  | metrics
  | currentPrincipal
  | incidents
  | incident
  | timeline
  | signals
  | incidentTopology
  | rcaReport
  | remediations
  | approvalRequests
  | approvalRequest
  | services
  | dependencies
  | runbooks
deriving DecidableEq, Repr

/-- What the method and path checks of a handler select. The Slack callback is kept apart: it is
authenticated by Slack's signature over the request, not by a role. -/
inductive Reply
  | refused (status : ℕ) (message : String)
  | view (what : View) (id : String)
  | slackCallback
  | run (op : Operation) (id : String)
deriving DecidableEq, Repr

def Reply.methodNotAllowed : Reply := .refused 405 "method not allowed"

/-- A handler that accepts one method and parses no path. -/
def onlyMethod (allowed : Method) (reply : Reply) (method : Method) : Reply :=
  if method ≠ allowed then .methodNotAllowed else reply

def handleHealth (_ : Method) : Reply := .view .health ""

def handleReady (_ : Method) : Reply := .view .ready ""

def handleMetrics (_ : Method) : Reply := .view .metrics ""

def handleAlertmanager : Method → Reply := onlyMethod "POST" (.run .ingestAlertmanager "")

def handleManualSignal : Method → Reply := onlyMethod "POST" (.run .ingestManualSignal "")

def handleCurrentPrincipal : Method → Reply := onlyMethod "GET" (.view .currentPrincipal "")

def handleSlackApprovalCallback : Method → Reply := onlyMethod "POST" .slackCallback

def handleAudit : Method → Reply := onlyMethod "GET" (.run .listAudit "")

def handleAuditVerify : Method → Reply := onlyMethod "GET" (.run .verifyAudit "")

def handleDeadLetters : Method → Reply := onlyMethod "GET" (.run .listDeadLetters "")

def handleTopology : Method → Reply := onlyMethod "GET" (.view .dependencies "")

def handleTopologyDependencies : Method → Reply := onlyMethod "POST" (.run .upsertDependency "")

def handleRunbooks : Method → Reply := onlyMethod "GET" (.view .runbooks "")

def handleRunbookReindex : Method → Reply := onlyMethod "POST" (.run .reindexRunbooks "")

/-- A collection that is listed with `GET` and extended with `POST`. -/
def listOrCreate (list create : Reply) (method : Method) : Reply :=
  match method with
  | "GET" => list
  | "POST" => create
  | _ => .methodNotAllowed

def handleIncidents : Method → Reply := listOrCreate (.view .incidents "") (.run .createIncident "")

def handleServices : Method → Reply := listOrCreate (.view .services "") (.run .createService "")

def handleIncidentStateChange (method : Method) (incidentID : String) (op : Operation) : Reply :=
  onlyMethod "POST" (.run op incidentID) method

def incidentRouteNotFound : Reply := .refused 404 "incident route not found"

def handleIncidentRoutes (method : Method) (path : String) : Reply :=
  let parts := split (trimPrefix path "/v1/incidents/") '/'
  let onGet (reply : Reply) : Reply := if method = "GET" then reply else incidentRouteNotFound
  let onPost (reply : Reply) : Reply := if method = "POST" then reply else incidentRouteNotFound
  match parts with
  | [] => incidentRouteNotFound
  | incidentID :: rest =>
    if incidentID = "" then incidentRouteNotFound
    else match rest with
      | [] => onGet (.view .incident incidentID)
      | ["ack"] => handleIncidentStateChange method incidentID .acknowledgeIncident
      | ["resolve"] => handleIncidentStateChange method incidentID .resolveIncident
      -- these two lists are served for every method
      | ["timeline"] => .view .timeline incidentID
      | ["signals"] => .view .signals incidentID
      | ["topology"] => onGet (.view .incidentTopology incidentID)
      | ["rca"] => onGet (.view .rcaReport incidentID)
      | ["remediations"] => onGet (.view .remediations incidentID)
      | ["rca", "generate"] => onPost (.run .generateRCA incidentID)
      | ["remediations", "suggest"] => onPost (.run .suggestRemediations incidentID)
      | ["remediations", "propose"] => onPost (.run .proposeRemediations incidentID)
      | _ => incidentRouteNotFound

def handleRemediationRoutes (method : Method) (path : String) : Reply :=
  match split (trimPrefix path "/v1/remediations/") '/' with
  | [remediationID, action] =>
    match action with
    | "approve" => onlyMethod "POST" (.run .approveRemediation remediationID) method
    | "reject" => onlyMethod "POST" (.run .rejectRemediation remediationID) method
    | "execute" => onlyMethod "POST" (.run .executeRemediation remediationID) method
    | "cancel" => onlyMethod "POST" (.run .cancelRemediation remediationID) method
    | _ => .refused 404 "unknown remediation action"
  | _ => .refused 404 "remediation route not found"

def handleApprovalRequests (method : Method) (path : String) : Reply :=
  let path := trimPrefix path "/v1/approval-requests"
  if path = "" ∨ path = "/" then
    onlyMethod "GET" (.view .approvalRequests "") method
  else
    match split (trim path '/') '/' with
    | [id] =>
      if method = "GET" then .view .approvalRequest id
      else .refused 404 "approval route not found"
    | [id, "decision"] =>
      if method = "POST" then .run .decideApproval id
      else .refused 404 "approval route not found"
    | _ => .refused 404 "approval route not found"

/-- `strconv.ParseUint(s, 10, 64)`: decimal digits only, within 64 bits. -/
def parseUint64 (s : String) : Option ℕ :=
  if s.toList ≠ [] ∧ s.toList.all Char.isDigit then
    let n := s.toList.foldl (fun acc c => acc * 10 + (c.toNat - '0'.toNat)) 0
    if n < 2 ^ 64 then some n else none
  else none

def handleDeadLetterRoutes (method : Method) (path : String) : Reply :=
  let sequence (op : Operation) (raw : String) : Reply :=
    if method ≠ "POST" then .methodNotAllowed
    else match parseUint64 raw with
      | some (_ + 1) => .run op raw
      | _ => .refused 400 "dead letter sequence must be a positive integer"
  match split (trimPrefix path "/v1/dead-letters/") '/' with
  | [raw, "replay"] => sequence .replayDeadLetter raw
  | [raw, "discard"] => sequence .discardDeadLetter raw
  | _ => .refused 404 "not found"

/-- The registrations of `Server.Handler`, in source order. -/
def routes : List (String × (Method → String → Reply)) :=
  [("/healthz", fun m _ => handleHealth m),
    ("/readyz", fun m _ => handleReady m),
    ("/metrics", fun m _ => handleMetrics m),
    ("/v1/alerts/alertmanager", fun m _ => handleAlertmanager m),
    ("/v1/signals/manual", fun m _ => handleManualSignal m),
    ("/v1/auth/me", fun m _ => handleCurrentPrincipal m),
    ("/v1/incidents", fun m _ => handleIncidents m),
    ("/v1/incidents/", handleIncidentRoutes),
    ("/v1/remediations/", handleRemediationRoutes),
    ("/v1/approval-requests", handleApprovalRequests),
    ("/v1/approval-requests/", handleApprovalRequests),
    ("/v1/approval-callbacks/slack", fun m _ => handleSlackApprovalCallback m),
    ("/v1/audit", fun m _ => handleAudit m),
    ("/v1/audit/verify", fun m _ => handleAuditVerify m),
    ("/v1/dead-letters", fun m _ => handleDeadLetters m),
    ("/v1/dead-letters/", handleDeadLetterRoutes),
    ("/v1/services", fun m _ => handleServices m),
    ("/v1/topology", fun m _ => handleTopology m),
    ("/v1/topology/dependencies", fun m _ => handleTopologyDependencies m),
    ("/v1/runbooks", fun m _ => handleRunbooks m),
    ("/v1/runbooks/reindex", fun m _ => handleRunbookReindex m)]

/-- The mux with the handlers behind it. -/
def dispatch (method : Method) (path : String) : Reply :=
  match ServeMux.handler routes path with
  | some handle => handle method path
  | none => .refused 404 "404 page not found"

end Argus.Api
