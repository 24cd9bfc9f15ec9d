import Argus.Actions.Catalog
import Argus.Base.Fallible
import Argus.Evidence.Probes

/-!
# The rule table

A rule is one failure mode that can be diagnosed: the alerts that name it, the probes that
corroborate or refute it, and the remediations it supports. `validateRules` checks a table before it
is used.
-/

namespace Argus.Correlation

open Actions (Action)
open Evidence (Probe ProbeError serviceVariable validateProbe)
open SortedAssoc (lookup)

abbrev RuleID := String

/-- The alert label that names a failure mode. -/
def failureModeLabel : String := "argus_failure_mode"

/-- A remediation whose target comes from the alert that matched the rule. -/
structure CandidateTemplate where
  actionType : String
  targetLabel : String := ""
  fallbackToService : Bool := false
  targetFormat : String := ""
  parameters : GoMap GoJson.Number := .nil
  risk : String

structure Rule where
  id : RuleID
  hypothesis : String
  alertNames : List String
  probes : List Probe
  remediations : List CandidateTemplate

/-! ## The compiled table -/

/-- `{service="{{service}}"}`. -/
def selector : String := "\x7bservice=\"" ++ serviceVariable ++ "\"\x7d"

/-- `{service="{{service}}",status=~"5.."}`. -/
def errorSelector : String := "\x7bservice=\"" ++ serviceVariable ++ "\",status=~\"5..\"\x7d"

/-- The share of failed requests of a counter. -/
def ratioQuery (counter : String) : String :=
  "sum(rate(" ++ counter ++ errorSelector ++ "[5m])) / sum(rate(" ++ counter ++ selector ++ "[5m]))"

def errorRatioQuery : String := ratioQuery "http_requests_total"

def p95LatencyQuery : String :=
  "histogram_quantile(0.95, sum by (le) (rate(http_request_duration_seconds_bucket" ++ selector ++
    "[5m])))"

def errorRatioProbe (id : String) (weight : ℚ) : Probe where
  id := id
  backend := .prometheus
  query := errorRatioQuery
  comparator := .atLeast
  threshold := 5 / 100
  weight := weight
  claim := "5xx response ratio is at or above 5%"
  symptom := true

def logProbe (id filter claim : String) (weight : ℚ) : Probe where
  id := id
  backend := .loki
  query := "sum(count_over_time(" ++ selector ++ " " ++ filter ++ " [10m]))"
  comparator := .atLeast
  threshold := 1
  weight := weight
  claim := claim

def postgresConnectionExhaustion : Rule where
  id := "postgres_connection_exhaustion"
  hypothesis := "PostgreSQL connection pool exhaustion"
  alertNames :=
    ["PaymentsAPIPostgresConnectionExhaustion", "PaymentsAPIPostgresPoolSaturation",
      "PostgresConnectionPoolExhausted"]
  probes :=
    [{ id := "postgres_pool_utilisation"
       backend := .prometheus
       query := "max(db_connection_pool_in_use" ++ selector ++ " / db_connection_pool_max" ++
         selector ++ ")"
       comparator := .atLeast
       threshold := 9 / 10
       weight := 20 / 100
       claim := "connection pool utilisation is at or above 90%" },
     errorRatioProbe "postgres_service_error_ratio" (10 / 100),
     logProbe "postgres_acquisition_timeout_logs" "|= \"connection acquisition timeout\""
       "logs contain postgres connection acquisition timeouts" (20 / 100)]
  remediations :=
    [{ actionType := Action.drainPostgresConnections.name
       risk := "medium" },
     { actionType := Action.resizeConnectionPool.name
       parameters := .single "size" (.num (.int 20)) rfl
       risk := "medium" },
     { actionType := Action.restartPod.name
       targetLabel := "pod"
       fallbackToService := true
       targetFormat := "local/%s"
       risk := "medium" }]

def redisMemoryPressure : Rule where
  id := "redis_memory_pressure"
  hypothesis := "Redis memory pressure causing cache degradation"
  alertNames := ["PaymentsAPIRedisMemoryPressure", "RedisMemoryPressure", "RedisMemoryHigh"]
  probes :=
    [{ id := "redis_memory_utilisation"
       backend := .prometheus
       query := "max(redis_memory_used_bytes" ++ selector ++ " / redis_memory_max_bytes" ++
         selector ++ ")"
       comparator := .atLeast
       threshold := 9 / 10
       weight := 20 / 100
       claim := "redis memory usage is at or above 90% of maxmemory" },
     { id := "redis_operation_errors"
       backend := .prometheus
       query := "sum(increase(redis_operation_errors_total" ++ selector ++ "[10m]))"
       comparator := .atLeast
       threshold := 1
       weight := 15 / 100
       claim := "redis operation errors increased in the last 10 minutes" },
     logProbe "redis_memory_pressure_logs" "|= \"redis memory pressure\""
       "logs report redis memory pressure" (15 / 100)]
  remediations :=
    [{ actionType := Action.purgeCache.name
       targetLabel := "cache_key_pattern"
       parameters := .single "max_keys" (.num (.int 500)) rfl
       risk := "medium" }]

def nginxUpstreamConfig : Rule where
  id := "nginx_upstream_config"
  hypothesis := "Nginx upstream misconfiguration or bad route rollout"
  alertNames := ["Nginx5xxSpike", "NginxUpstreamErrors"]
  probes :=
    [{ id := "nginx_5xx_ratio"
       backend := .prometheus
       query := ratioQuery "nginx_http_requests_total"
       comparator := .atLeast
       threshold := 5 / 100
       weight := 20 / 100
       claim := "edge 5xx response ratio is at or above 5%"
       symptom := true },
     logProbe "nginx_upstream_error_logs" "|= \"upstream\"" "edge logs report upstream errors"
       (15 / 100)]
  remediations :=
    [{ actionType := Action.rollbackConfig.name
       risk := "medium" },
     { actionType := Action.reloadNginx.name
       risk := "medium" }]

def dependencyLatency : Rule where
  id := "dependency_latency"
  hypothesis := "Downstream dependency latency dominates the request path"
  alertNames := ["PaymentsAPIDependencyLatency", "DownstreamDependencyLatency"]
  probes :=
    [{ id := "service_p95_latency"
       backend := .prometheus
       query := p95LatencyQuery
       comparator := .atLeast
       threshold := 8 / 10
       weight := 20 / 100
       claim := "p95 request latency is at or above 800ms"
       symptom := true },
     logProbe "dependency_latency_logs" "|= \"latency dominated\""
       "logs attribute request latency to a downstream dependency" (15 / 100)]
  remediations :=
    [{ actionType := Action.toggleFeatureFlag.name
       targetLabel := "degradable_feature_flag"
       parameters := .single "enabled" (.bool false) rfl
       risk := "medium" }]

def badConfigRollout : Rule where
  id := "bad_config_rollout"
  hypothesis := "Bad config rollout introduced an invalid runtime configuration"
  alertNames := ["PaymentsAPIBadConfigRollout", "ConfigRolloutFailed"]
  probes :=
    [logProbe "config_parse_error_logs" "|~ \"config parse|invalid config\""
       "logs contain configuration parse errors" (25 / 100),
     errorRatioProbe "config_service_error_ratio" (10 / 100)]
  remediations :=
    [{ actionType := Action.rollbackConfig.name
       risk := "medium" },
     { actionType := Action.restartPod.name
       targetLabel := "pod"
       fallbackToService := true
       targetFormat := "local/%s"
       risk := "medium" }]

def defaultRules : List Rule :=
  [postgresConnectionExhaustion, redisMemoryPressure, nginxUpstreamConfig, dependencyLatency,
    badConfigRollout]

/-! ## Validation -/

inductive TemplateError where
  | unregistered (actionType : String)
  | unknownRisk (actionType risk : String)
  | targetFormat (actionType : String)
  | redundantFallback (actionType : String)
  deriving DecidableEq, Repr

def TemplateError.text (quote : String → String) : TemplateError → String
  | unregistered actionType => "remediation " ++ quote actionType ++ " is not a registered action"
  | unknownRisk actionType risk =>
    "remediation " ++ actionType ++ " has unknown risk " ++ quote risk
  | targetFormat actionType =>
    "remediation " ++ actionType ++ " target format must contain exactly one %s"
  | redundantFallback actionType =>
    "remediation " ++ actionType ++ ": fallback without a target label is redundant"

def validateTemplate (template : CandidateTemplate) : Except TemplateError Unit :=
  if !Actions.isRegistered template.actionType then .error (.unregistered template.actionType)
  else if template.risk ∉ ["low", "medium", "high"] then
    .error (.unknownRisk template.actionType template.risk)
  else if template.targetFormat ≠ "" ∧ Strings.count template.targetFormat "%s" ≠ 1 then
    .error (.targetFormat template.actionType)
  else if template.targetLabel = "" ∧ template.fallbackToService then
    .error (.redundantFallback template.actionType)
  else .ok ()

inductive RuleError where
  | incomplete
  | duplicateID (id : RuleID)
  | noAlertNames (id : RuleID)
  | claimedTwice (name : String) (owner id : RuleID)
  | noProbes (id : RuleID)
  | probe (id : RuleID) (error : ProbeError)
  | duplicateProbe (id : RuleID) (probe : String)
  | onlySymptoms (id : RuleID)
  | weights (id : RuleID) (total : ℚ)
  | remediation (id : RuleID) (error : TemplateError)
  deriving DecidableEq, Repr

def RuleError.text (quote : String → String) : RuleError → String
  | incomplete => "rule id and hypothesis are required"
  | duplicateID id => "duplicate rule id " ++ id
  | noAlertNames id => "rule " ++ id ++ " has no alert names"
  | claimedTwice name owner id =>
    "alert " ++ name ++ " is claimed by both " ++ owner ++ " and " ++ id
  | noProbes id => "rule " ++ id ++ " has no corroboration probes"
  | probe id error => "rule " ++ id ++ ": " ++ error.text quote
  | duplicateProbe id name => "rule " ++ id ++ ": duplicate probe " ++ name
  | onlySymptoms id =>
    "rule " ++ id ++ " has only symptom probes; it can never be independently corroborated"
  | weights id total =>
    "rule " ++ id ++ ": probe weights sum to " ++ Rounding.fixed 2 total ++ ", above 0.50"
  | remediation id error => "rule " ++ id ++ ": " ++ error.text quote

/-- What the loop over the rules has seen. -/
structure Seen where
  ids : List RuleID
  alertNames : List (String × RuleID)

/-- What the loop over the probes of a rule has seen. -/
structure SeenProbes where
  probeIDs : List String
  total : ℚ
  hasCause : Bool

/-- The alert names of a rule, claimed for it. -/
def claimNames (id : RuleID) (owners : List (String × RuleID)) (name : String) :
    Except RuleError (List (String × RuleID)) :=
  match lookup name owners with
  | some owner => .error (.claimedTwice name owner id)
  | none => .ok ((name, id) :: owners)

def checkProbe (id : RuleID) (seen : SeenProbes) (probe : Probe) : Except RuleError SeenProbes :=
  match validateProbe probe with
  | .error e => .error (.probe id e)
  | .ok () =>
    if probe.id ∈ seen.probeIDs then .error (.duplicateProbe id probe.id)
    else .ok ⟨probe.id :: seen.probeIDs, seen.total + probe.weight,
      seen.hasCause || !probe.symptom⟩

def checkTemplate (id : RuleID) (_ : Unit) (template : CandidateTemplate) : Except RuleError Unit :=
  (validateTemplate template).mapError (.remediation id)

/-- One round of the loop of `validateRules`. -/
def validateRule (seen : Seen) (rule : Rule) : Except RuleError Seen :=
  if rule.id = "" ∨ rule.hypothesis = "" then .error .incomplete
  else if rule.id ∈ seen.ids then .error (.duplicateID rule.id)
  else if rule.alertNames = [] then .error (.noAlertNames rule.id)
  else do
    let alertNames ← rule.alertNames.foldlM (claimNames rule.id) seen.alertNames
    if rule.probes = [] then .error (.noProbes rule.id)
    else do
      let probes ← rule.probes.foldlM (checkProbe rule.id) ⟨[], 0, false⟩
      if !probes.hasCause then .error (.onlySymptoms rule.id)
      else if 1 / 2 + 1 / 10 ^ 9 < probes.total then .error (.weights rule.id probes.total)
      else do
        rule.remediations.foldlM (checkTemplate rule.id) ()
        .ok ⟨rule.id :: seen.ids, alertNames⟩

def validateRules (rules : List Rule) : Except RuleError Unit := do
  let _ ← rules.foldlM validateRule ⟨[], []⟩
  .ok ()

variable {rule : Rule} {seen seen' : Seen}

/-- A rule that is accepted has an id that is new, and its probes pass their checks. -/
theorem validateRule_ok (h : validateRule seen rule = .ok seen') :
    rule.id ≠ "" ∧ rule.id ∉ seen.ids ∧ seen'.ids = rule.id :: seen.ids ∧
      ∃ probes, rule.probes.foldlM (checkProbe rule.id) ⟨[], 0, false⟩ = .ok probes := by
  unfold validateRule at h
  split at h
  · cases h
  rename_i hcomplete
  split at h
  · cases h
  rename_i hid
  split at h
  · cases h
  obtain ⟨alertNames, -, h⟩ := exists_of_bind_eq_ok h
  split at h
  · cases h
  obtain ⟨probes, hprobes, h⟩ := exists_of_bind_eq_ok h
  split at h
  · cases h
  split at h
  · cases h
  obtain ⟨-, -, h⟩ := exists_of_bind_eq_ok h
  cases h
  exact ⟨fun hempty => hcomplete (.inl hempty), hid, rfl, probes, hprobes⟩

variable {rules : List Rule}

private theorem nodup_ids_of_foldlM (h : rules.foldlM validateRule seen = .ok seen') :
    (rules.map Rule.id).Nodup ∧ ∀ rule ∈ rules, rule.id ∉ seen.ids := by
  induction rules generalizing seen with
  | nil => exact ⟨List.nodup_nil, by simp⟩
  | cons rule rules ih =>
    obtain ⟨seen₁, hone, hall⟩ := foldlM_cons_eq_ok h
    obtain ⟨-, hnew, hids, -⟩ := validateRule_ok hone
    obtain ⟨hnodup, hfresh⟩ := ih hall
    rw [hids] at hfresh
    refine ⟨List.nodup_cons.mpr ⟨?_, hnodup⟩, ?_⟩
    · intro hmem
      obtain ⟨other, hother, heq⟩ := List.mem_map.mp hmem
      exact hfresh other hother (heq ▸ List.mem_cons_self)
    · intro other hother
      rcases List.mem_cons.mp hother with rfl | hrest
      · exact hnew
      · exact fun hmem => hfresh other hrest (List.mem_cons_of_mem _ hmem)

/-- No two rules of a valid table have one id. -/
theorem nodup_ids_of_validateRules (h : validateRules rules = .ok ()) :
    (rules.map Rule.id).Nodup := by
  obtain ⟨seen, hseen, -⟩ := exists_of_bind_eq_ok h
  exact (nodup_ids_of_foldlM hseen).1

theorem id_ne_of_validateRules (h : validateRules rules = .ok ()) (hrule : rule ∈ rules) :
    rule.id ≠ "" := by
  obtain ⟨seen, hseen, -⟩ := exists_of_bind_eq_ok h
  obtain ⟨before, after, hone⟩ := exists_step_of_foldlM hseen hrule
  exact (validateRule_ok hone).1

/-- Every probe of a valid table passes its own check. -/
theorem validateProbe_of_validateRules (h : validateRules rules = .ok ()) (hrule : rule ∈ rules)
    {probe : Probe} (hprobe : probe ∈ rule.probes) : validateProbe probe = .ok () := by
  obtain ⟨seen, hseen, -⟩ := exists_of_bind_eq_ok h
  obtain ⟨before, after, hone⟩ := exists_step_of_foldlM hseen hrule
  obtain ⟨-, -, -, probes, hprobes⟩ := validateRule_ok hone
  obtain ⟨earlier, later, hcheck⟩ := exists_step_of_foldlM hprobes hprobe
  unfold checkProbe at hcheck
  cases hvalid : validateProbe probe with
  | error e =>
    rw [hvalid] at hcheck
    cases hcheck
  | ok _ => rfl

/-! ## Targets -/

/-- The value that a template takes its target from, and what that value is. -/
def CandidateTemplate.source (template : CandidateTemplate) (service : String)
    (labels : Incidents.Labels) : String × String :=
  if template.targetLabel = "" then (service, "alert service")
  else
    let value := labels.get template.targetLabel
    if value = "" ∧ template.fallbackToService then (service, "alert service")
    else (value, "label " ++ template.targetLabel)

/-- `Render(service, labels)`: the target and the parameters, or why there is no safe target. -/
def CandidateTemplate.render (quote : String → String) (template : CandidateTemplate)
    (service : String) (labels : Incidents.Labels) : Except String (String × GoMap GoJson.Number) :=
  let (value, source) := template.source service labels
  if value = "" then .error ("alert has no " ++ source)
  else
    let target := if template.targetFormat = "" then value
      else Strings.sprintf template.targetFormat value
    match Actions.validate template.actionType target template.parameters with
    | .error e => .error ("target " ++ quote target ++ " from " ++ source ++
        " rejected by action catalog: " ++ e)
    | .ok () => .ok (target, template.parameters)

/-- A target depends on the service and on the label that the template names. -/
theorem CandidateTemplate.render_congr (quote : String → String) (template : CandidateTemplate)
    (service : String) {labels labels' : Incidents.Labels}
    (h : template.targetLabel ≠ "" →
      labels.get template.targetLabel = labels'.get template.targetLabel) :
    template.render quote service labels = template.render quote service labels' := by
  have hsource : template.source service labels = template.source service labels' := by
    unfold source
    by_cases hlabel : template.targetLabel = ""
    · rw [if_pos hlabel, if_pos hlabel]
    · rw [if_neg hlabel, if_neg hlabel, h hlabel]
  rw [render, render, hsource]

end Argus.Correlation
