import Argus.Base.Grouping
import Argus.Correlation.Matching

/-!
# Root cause analysis

Every matched rule is scored from the results of its probes: a firing alert is worth a fixed score,
corroborated weight adds to it, refuted weight takes half of itself away, and the number of
independent sources bounds the result. The rules are then ranked and the first one is reported.
-/

namespace Argus.Rca

open Correlation (CandidateTemplate Correlator Match Rule RuleID Signal failureModeLabel)
open Evidence (Backend Collector Result)
open Incidents (IncidentRow IncidentTopology Time)
open Sorting (sortStrings stableSort)
open Strings (trimRight trimSpace)
open Rounding (fixed truncate)

/-! ## Constants -/

def baselineConfidence : ℚ := 35 / 100

def alertMatchScore : ℚ := 45 / 100

def refutationFactor : ℚ := 1 / 2

def insufficientHypothesis : String := "Insufficient evidence for a high-confidence root cause"

def alertSource : String := "alertmanager"

/-- The bound on confidence that a number of independent sources sets. -/
def sourceCap (sources : ℕ) : ℚ :=
  if sources ≤ 1 then 55 / 100 else if sources = 2 then 80 / 100 else 95 / 100

def clamp (value min max : ℚ) : ℚ :=
  if value < min then min else if max < value then max else value

def sign (value : ℚ) : ℚ := if value < 0 then -1 else 1

def round4 (value : ℚ) : ℚ := truncate (value * 10000 + 1 / 2 * sign value) / 10000

def formatValue (value : ℚ) : String := trimRight (trimRight (fixed 4 value) '0') '.'

/-- `appendEvidence`: blank lines and lines that are there already are left out. -/
def appendEvidence (items values : List String) : List String :=
  values.foldl (fun items value =>
    if trimSpace value = "" ∨ value ∈ items then items else items ++ [value]) items

/-! ## Records -/

/-- A remediation that a report supports. -/
structure Candidate where
  actionType : String
  target : String
  parameters : GoMap GoJson.Number
  risk : String
  requiresApproval : Bool

inductive EvidenceKind where
  | alert
  | probe
  deriving DecidableEq, Repr

/-- One observation that a report cites. -/
structure RCAEvidence where
  ruleID : String
  kind : EvidenceKind
  source : String
  reference : String
  service : String
  query : String
  status : String
  value : Option ℚ
  comparator : String
  threshold : Option ℚ
  weight : ℚ
  claim : String
  symptom : Bool
  error : String
  observedAt : Time

/-- How a confidence came about. -/
structure RCAScore where
  ruleID : String
  baseline : ℚ
  alertMatch : ℚ
  corroborated : ℚ
  refuted : ℚ
  refutationPenalty : ℚ
  raw : ℚ
  sources : List String
  sourceCap : ℚ
  topologyAdjustment : ℚ
  contradicted : Bool
  final : ℚ
  deriving DecidableEq

/-- The outcome of an analysis. -/
structure Analysis where
  ruleID : RuleID
  summary : String
  hypothesis : String
  confidence : ℚ
  evidence : List String
  factors : List String
  candidates : List Candidate
  items : List RCAEvidence
  score : RCAScore

/-! ## Collecting evidence -/

/-- The probe run for one matched rule. -/
structure RuleEvidence where
  service : String
  results : List Result

/-- The match of a rule that scopes its probes: the one observed on the incident's own service,
otherwise the earliest. -/
def choosePrimary (incident : IncidentRow) : Option Match → Match → Match
  | none, m => m
  | some existing, m =>
    if existing.service ≠ incident.service ∧ m.service = incident.service then m else existing

def primaryMatches (incident : IncidentRow) (ms : List Match) : List (RuleID × Match) :=
  Grouping.groupWith Match.ruleID (choosePrimary incident) ms

/-- `collectEvidence`. The rules are probed concurrently, so `collector` may answer each of them
differently. -/
def collectEvidence (quote : String → String) (collector : RuleID → Collector) (at_ : Time)
    (incident : IncidentRow) (ms : List Match) : List (RuleID × RuleEvidence) :=
  (primaryMatches incident ms).map fun (id, m) =>
    (id, ⟨m.service, (collector id).run quote m.rule.probes m.service at_⟩)

/-- The calls to backends that `collectEvidence` makes. -/
def sentCalls (collector : RuleID → Collector) (incident : IncidentRow) (ms : List Match) :
    List (RuleID × Evidence.Call) :=
  (primaryMatches incident ms).flatMap fun (id, m) =>
    ((collector id).calls m.rule.probes m.service).map fun call => (id, call)

/-! ## Scoring a rule -/

/-- The matches of one rule, of which there is at least one. -/
structure RuleMatches where
  first : Match
  rest : List Match

def RuleMatches.all (ms : RuleMatches) : List Match := ms.first :: ms.rest

structure HypothesisScore where
  rule : Rule
  found : RuleMatches
  run : RuleEvidence
  corroborated : ℚ
  refuted : ℚ
  sources : List String
  raw : ℚ
  cap : ℚ
  confidence : ℚ
  contradicted : Bool

/-- The weights of the results with a status. -/
def weightOf (status : Evidence.Status) (results : List Result) : ℚ :=
  ((results.filter (·.status = status)).map Result.weight).sum

/-- The backends with a corroborated probe of the failure mode itself. -/
def causeBackends (results : List Result) : List Backend :=
  ((results.filter fun r => r.status = .corroborated ∧ r.symptom = false).map Result.backend).dedup

def scoreRule (rule : Rule) (found : RuleMatches) (run : RuleEvidence) : HypothesisScore :=
  let corroborated := weightOf .corroborated run.results
  let refuted := weightOf .refuted run.results
  let sources := alertSource :: sortStrings ((causeBackends run.results).map Backend.name)
  let raw := round4 (alertMatchScore + corroborated - refutationFactor * refuted)
  let cap := sourceCap sources.length
  { rule := rule
    found := found
    run := run
    corroborated := corroborated
    refuted := refuted
    sources := sources
    raw := raw
    cap := cap
    confidence := clamp raw baselineConfidence cap
    contradicted := corroborated < refuted }

/-! ## Texts -/

def diagnostics (service : String) : Candidate where
  actionType := "collect_diagnostics"
  target := service
  parameters := .nil
  risk := "low"
  requiresApproval := false

/-- The source of a corroborated result, as an evidence line starts. -/
def sourceOf (r : Result) : String :=
  if r.symptom then r.backend.name ++ " (symptom)" else r.backend.name

/-- What a result observed; a corroborated or refuted one has a value. -/
def observedValue (r : Result) : String := formatValue (r.value.getD 0)

def alertLine (m : Match) : String :=
  alertSource ++ ": alert " ++ m.alertName ++ " fired for " ++ m.service

def probeLine (r : Result) : String :=
  sourceOf r ++ ": " ++ r.claim ++ " (observed " ++ observedValue r ++ " " ++ r.comparator.name ++
    " " ++ formatValue r.threshold ++ ")"

def supportingEvidence (score : HypothesisScore) : List String :=
  let alerts := score.found.all.foldl (fun out m => appendEvidence out [alertLine m]) []
  (score.run.results.filter (·.status = .corroborated)).foldl
    (fun out r => appendEvidence out [probeLine r]) alerts

def resultFactor (r : Result) : String :=
  let label := r.backend.name ++ " probe " ++ r.probeID ++ (if r.symptom then " (symptom)" else "")
  match r.status with
  | .corroborated => label ++ " corroborated: observed " ++ observedValue r ++ " " ++
      r.comparator.name ++ " " ++ formatValue r.threshold ++ " (+" ++ fixed 2 r.weight ++ ")"
  | .refuted => label ++ " refuted: observed " ++ observedValue r ++ ", expected " ++
      r.comparator.name ++ " " ++ formatValue r.threshold ++ " (-" ++
      fixed 2 (refutationFactor * r.weight) ++ ")"
  | .noData => label ++ " returned no matching series (not counted)"
  | .unavailable => label ++ " unavailable: " ++ r.error ++ " (not counted)"

def scoreFactors (score : HypothesisScore) : List String :=
  ["alert match via " ++ score.found.first.reason ++ " (+" ++ fixed 2 alertMatchScore ++ ")"] ++
    score.run.results.map resultFactor ++
    ["independent sources: " ++ String.intercalate ", " score.sources ++ " (cap " ++
      fixed 2 score.cap ++ ")"]

/-- The matches of a rule, one for each alert and service. -/
def distinctAlerts (ms : List Match) : List Match :=
  (Grouping.groupWith (fun m => m.alertName ++ "|" ++ m.service)
    (fun kept m => kept.getD m) ms).map Prod.snd

def alertItem (rule : Rule) (m : Match) : RCAEvidence where
  ruleID := rule.id
  kind := .alert
  source := alertSource
  reference := m.alertName
  service := m.service
  query := ""
  status := "matched"
  value := none
  comparator := ""
  threshold := none
  weight := alertMatchScore
  claim := "alert matched by " ++ m.reason
  symptom := false
  error := ""
  observedAt := m.observedAt

def probeItem (rule : Rule) (service : String) (r : Result) : RCAEvidence where
  ruleID := rule.id
  kind := .probe
  source := r.backend.name
  reference := r.probeID
  service := service
  query := r.query
  status := r.status.name
  value := r.value
  comparator := r.comparator.name
  threshold := some r.threshold
  weight := r.weight
  claim := r.claim
  symptom := r.symptom
  error := r.error
  observedAt := r.evaluatedAt

def evidenceItems (score : HypothesisScore) : List RCAEvidence :=
  (distinctAlerts score.found.all).map (alertItem score.rule) ++
    score.run.results.map (probeItem score.rule score.run.service)

/-! ## Candidates -/

/-- The match that targets are taken from: the one whose service was probed. -/
def targetMatch (score : HypothesisScore) : Match :=
  (score.found.all.find? (·.service = score.run.service)).getD score.found.first

def renderTemplate (quote : String → String) (m : Match) (template : CandidateTemplate) :
    Except String Candidate :=
  match template.render quote m.service m.labels with
  | .error reason =>
    .error ("remediation " ++ template.actionType ++ " not proposed: " ++ reason)
  | .ok (target, parameters) =>
    .ok ⟨template.actionType, target, parameters, template.risk, template.risk ≠ "low"⟩

/-- `renderCandidates`: the candidates, and why others were dropped. -/
def renderCandidates (quote : String → String) (score : HypothesisScore) :
    List Candidate × List String :=
  let m := targetMatch score
  let rendered := score.rule.remediations.map (renderTemplate quote m)
  let candidates := rendered.filterMap Except.toOption
  let skipped := rendered.filterMap fun
    | .error reason => some reason
    | .ok _ => none
  (if candidates.isEmpty then [diagnostics m.service] else candidates, skipped)

/-! ## Choosing a hypothesis -/

def insufficientEvidence (incident : IncidentRow) : Analysis where
  ruleID := ""
  summary := "Signals have been collected, but no alert names a known failure mode."
  hypothesis := insufficientHypothesis
  confidence := baselineConfidence
  evidence :=
    ["no alert matched a failure-mode rule by alertname or " ++ failureModeLabel ++ " label"]
  factors := ["no corroboration probes were run"]
  candidates := [diagnostics incident.service]
  items := []
  score :=
    { ruleID := ""
      baseline := baselineConfidence
      alertMatch := 0
      corroborated := 0
      refuted := 0
      refutationPenalty := 0
      raw := 0
      sources := []
      sourceCap := 0
      topologyAdjustment := 0
      contradicted := false
      final := baselineConfidence }

def HypothesisScore.breakdown (best : HypothesisScore) : RCAScore where
  ruleID := best.rule.id
  baseline := baselineConfidence
  alertMatch := alertMatchScore
  corroborated := round4 best.corroborated
  refuted := round4 best.refuted
  refutationPenalty := round4 (refutationFactor * best.refuted)
  raw := best.raw
  sources := best.sources
  sourceCap := best.cap
  topologyAdjustment := 0
  contradicted := best.contradicted
  final := best.confidence

/-- The matches of each rule, in the order in which the rules first appear. -/
def byRule (ms : List Match) : List (RuleID × RuleMatches) :=
  Grouping.groupWith Match.ruleID
    (fun found m => match found with
      | none => ⟨m, []⟩
      | some found => ⟨found.first, found.rest ++ [m]⟩) ms

/-- The score of each matched rule. -/
def hypothesisScores (ms : List Match) (runs : List (RuleID × RuleEvidence)) :
    List HypothesisScore :=
  (byRule ms).map fun (id, found) =>
    scoreRule found.first.rule found ((SortedAssoc.lookup id runs).getD ⟨"", []⟩)

/-- The order of `SliceStable`: contradicted rules last, then by confidence, by the number of
sources and by the hypothesis. -/
def ranksBefore (a b : HypothesisScore) : Bool :=
  if a.contradicted ≠ b.contradicted then !a.contradicted
  else if a.confidence ≠ b.confidence then b.confidence < a.confidence
  else if a.sources.length ≠ b.sources.length then b.sources.length < a.sources.length
  else Sorting.before a.rule.hypothesis b.rule.hypothesis

/-- The service that a score is about. -/
def HypothesisScore.service (best : HypothesisScore) : String :=
  if best.run.service = "" then best.found.first.service else best.run.service

/-- The summary of a contradicted hypothesis. -/
def contradictedSummary (best : HypothesisScore) : String :=
  best.found.first.alertName ++ " matched the " ++ best.rule.hypothesis ++
    " rule, but backend evidence contradicts it (corroborated " ++ fixed 2 best.corroborated ++
    " < refuted " ++ fixed 2 best.refuted ++ "). Confidence " ++ fixed 4 best.confidence ++
    "; only diagnostics are proposed."

def likelySummary (best : HypothesisScore) : String :=
  best.rule.hypothesis ++ " likely impacted " ++ best.service ++ ". Confidence " ++
    fixed 4 best.confidence ++ " = min(max(" ++ fixed 2 alertMatchScore ++ " alert match + " ++
    fixed 2 best.corroborated ++ " corroborated - " ++
    fixed 2 (refutationFactor * best.refuted) ++ " refutation penalty, " ++
    fixed 2 baselineConfidence ++ "), " ++ fixed 2 best.cap ++ " cap for " ++
    toString best.sources.length ++ " independent source(s): " ++
    String.intercalate ", " best.sources ++ ")."

/-- The outcome for the hypothesis that ranks first. -/
def conclude (quote : String → String) (best : HypothesisScore) (items : List RCAEvidence) :
    Analysis :=
  if best.contradicted then
    { ruleID := best.rule.id
      summary := contradictedSummary best
      hypothesis := best.rule.hypothesis
      confidence := best.confidence
      evidence := supportingEvidence best
      factors := scoreFactors best
      candidates := [diagnostics best.service]
      items := items
      score := best.breakdown }
  else
    { ruleID := best.rule.id
      summary := likelySummary best
      hypothesis := best.rule.hypothesis
      confidence := best.confidence
      evidence := supportingEvidence best
      factors := scoreFactors best ++ (renderCandidates quote best).2
      candidates := (renderCandidates quote best).1
      items := items
      score := best.breakdown }

def scoreHypotheses (quote : String → String) (incident : IncidentRow) (ms : List Match)
    (runs : List (RuleID × RuleEvidence)) : Analysis :=
  let scores := hypothesisScores ms runs
  match stableSort ranksBefore scores with
  | [] => insufficientEvidence incident
  | best :: _ => conclude quote best (scores.flatMap evidenceItems)

/-! ## Topology -/

/-- Without a matched rule, the root that alerts share is the failure domain. -/
def applyTopologyFallback (quote : String → String) (incident : IncidentRow)
    (topology : IncidentTopology) (result : Analysis) : Analysis :=
  if result.hypothesis ≠ insufficientHypothesis ∨ topology.suppressedAlertCount = 0 ∨
      topology.rootService = "" then result
  else
    let confidence : ℚ := if topology.rootInferred then 58 / 100 else 72 / 100
    { result with
      confidence := confidence
      hypothesis := "Failure at root dependency " ++ topology.rootService
      summary := "Topology places the failure domain for incident " ++ quote incident.title ++
        " at " ++ topology.rootService ++
        ". It establishes the affected dependency but not the component-level failure mode."
      evidence :=
        [if topology.rootInferred then "shared dependency inferred from downstream alert paths"
          else "root service emitted alert evidence in the incident window",
         toString topology.alertCount ++ " alerts across " ++
          toString topology.affectedServices.length ++ " services share dependency root " ++
          topology.rootService]
      factors :=
        ["specific metric, log, or trace evidence is still required to identify the failure mode"]
      candidates := [diagnostics topology.rootService]
      score := { result.score with
        sources := [alertSource, "topology"]
        sourceCap := sourceCap 2
        final := confidence } }

/-- An observed root confirms where a matched failure happened. -/
def adjustConfidence (topology : IncidentTopology) (result : Analysis) : Analysis :=
  if topology.rootInferred = false ∧ result.ruleID ≠ "" ∧ result.score.contradicted = false then
    let adjusted := clamp (result.confidence + 3 / 100) baselineConfidence result.score.sourceCap
    { result with
      confidence := adjusted
      score := { result.score with
        topologyAdjustment := round4 (adjusted - result.confidence)
        final := adjusted } }
  else result

def suppressedLine (topology : IncidentTopology) : String :=
  toString topology.suppressedAlertCount ++
    " downstream alerts were suppressed behind root service " ++ topology.rootService

def blastRadiusLine (topology : IncidentTopology) : String :=
  "blast radius includes " ++ String.intercalate ", " topology.affectedServices

def enrichWithTopology (result : Analysis) (topology : IncidentTopology) : Analysis :=
  if topology.suppressedAlertCount = 0 then result
  else
    let adjusted := adjustConfidence topology result
    { adjusted with
      summary := result.summary ++ " Topology correlation identified " ++
        (if topology.rootInferred then "inferred" else "observed") ++ " root service " ++
        topology.rootService ++ ", grouped " ++ toString topology.alertCount ++ " alerts across " ++
        toString topology.affectedServices.length ++ " services, and suppressed " ++
        toString topology.suppressedAlertCount ++ " downstream alerts."
      evidence := appendEvidence result.evidence [suppressedLine topology, blastRadiusLine topology]
      factors := topology.paths.foldl (fun factors path => appendEvidence factors
        ["dependency path: " ++ String.intercalate " -> " path.services]) result.factors }

/-- `analyze`. -/
def analyze (quote : String → String) (correlator : Correlator) (collector : RuleID → Collector)
    (at_ : Time) (incident : IncidentRow) (signals : List Signal) (topology : IncidentTopology) :
    Analysis :=
  let ms := correlator.matchAll incident signals
  let runs := collectEvidence quote collector at_ incident ms
  let result := scoreHypotheses quote incident ms runs
  enrichWithTopology (applyTopologyFallback quote incident topology result) topology

end Argus.Rca
