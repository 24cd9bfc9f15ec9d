import Argus.Correlation.Rules
import Argus.Base.Sorting

/-!
# Matching signals to rules

Each signal selects at most one rule, by its structured identity only: the label that names a
failure mode, and otherwise the name of the alert.
-/

namespace Argus.Correlation

open Incidents (IncidentRow Labels Time zeroTime)
open SortedAssoc (lookup)
open Sorting (stableSort)

/-- A signal as `ListSignals` reads it back. Its body is whatever JSON the column holds. -/
structure Signal where
  id : String
  incidentID : String
  serviceID : String
  source : String
  signalType : String
  severity : String
  name : String
  body : GoMap GoJson.Float
  observedAt : Time
  createdAt : Time

/-- A persisted alert signal names a known failure mode. -/
structure Match where
  ruleID : RuleID
  rule : Rule
  signalID : String
  alertName : String
  service : String
  labels : Labels
  observedAt : Time
  reason : String

structure Correlator where
  rules : List Rule

namespace Correlator

def newWithRules (rules : List Rule) : Except RuleError Correlator := do
  validateRules rules
  .ok ⟨rules⟩

/-- `New`, over the compiled table. -/
def new : Correlator := ⟨defaultRules⟩

variable (c : Correlator)

/-- `byID[id]`: the map is filled in the order of the rules. -/
def byID (id : RuleID) : Option Rule := (c.rules.filter (·.id == id)).getLast?

/-- `byAlertName[name]`. -/
def byAlertName (name : String) : Option Rule :=
  (c.rules.filter (name ∈ ·.alertNames)).getLast?

end Correlator

/-- The text of a JSON string. -/
def textOf : Json GoJson.Float → Option String
  | .str text => some text
  | _ => none

/-- `SignalLabels`: the labels with a text. -/
def signalLabels (signal : Signal) : Labels :=
  match signal.body.get "labels" with
  | some (.obj members) => members.filterMap fun m => (textOf m.2).map fun text => (m.1, text)
  | _ => []

/-- The `observed_service` of the persisted topology observation, empty if there is none. -/
def observedService (signal : Signal) : String :=
  match signal.body.get "topology" with
  | some (.obj members) => ((lookup "observed_service" members).bind textOf).getD ""
  | _ => ""

/-- `SignalService`: the service label, then the persisted observation, then the incident's
service. -/
def signalService (incident : IncidentRow) (signal : Signal) (labels : Labels) : String :=
  if labels.get "service" ≠ "" then labels.get "service"
  else if observedService signal ≠ "" then observedService signal
  else incident.service

def alertNameOf (signal : Signal) : String :=
  if signal.name = "" then (signalLabels signal).get "alertname" else signal.name

def observedAtOf (incident : IncidentRow) (signal : Signal) : Time :=
  if signal.observedAt = zeroTime then incident.startedAt else signal.observedAt

namespace Correlator

variable (c : Correlator)

/-- The rule that a signal's failure-mode label names, if it has one. -/
def modeRule (signal : Signal) : Option Rule :=
  let mode := (signalLabels signal).get failureModeLabel
  if mode = "" then none else c.byID mode

/-- The rule that a signal selects, and why. -/
def select (signal : Signal) : Option (Rule × String) :=
  match c.modeRule signal with
  | some rule =>
    some (rule, "label " ++ failureModeLabel ++ "=" ++ (signalLabels signal).get failureModeLabel)
  | none => (c.byAlertName (alertNameOf signal)).map fun rule =>
    (rule, "alertname " ++ alertNameOf signal)

/-- One round of the loop of `Match`. -/
def matchOf (incident : IncidentRow) (signal : Signal) : Option Match :=
  (c.select signal).map fun (rule, reason) =>
    { ruleID := rule.id
      rule := rule
      signalID := signal.id
      alertName := alertNameOf signal
      service := signalService incident signal (signalLabels signal)
      labels := signalLabels signal
      observedAt := observedAtOf incident signal
      reason := reason }

/-- `Match`: in observation order. -/
def matchAll (incident : IncidentRow) (signals : List Signal) : List Match :=
  stableSort (fun a b => decide (a.observedAt < b.observedAt))
    (signals.filterMap (c.matchOf incident))

/-! ## The selected rule -/

/-- The rule that a signal selects. -/
def ruleOf (signal : Signal) : Option Rule := (c.select signal).map Prod.fst

variable {c} {incident : IncidentRow} {signal : Signal} {signals : List Signal}

theorem mem_rules_of_ruleOf {rule : Rule} (h : c.ruleOf signal = some rule) : rule ∈ c.rules := by
  unfold ruleOf select at h
  split at h
  · rename_i found hmode
    obtain rfl : found = rule := by simpa using h
    unfold modeRule at hmode
    dsimp only at hmode
    split at hmode
    · cases hmode
    · exact (List.mem_filter.mp (List.mem_of_getLast? hmode)).1
  · rw [Option.map_map] at h
    have hname : c.byAlertName (alertNameOf signal) = some rule := by
      simpa [Function.comp_def] using h
    exact (List.mem_filter.mp (List.mem_of_getLast? hname)).1

/-- The match of a signal is about the rule that it selects. -/
theorem matchOf_eq_some {m : Match} (h : c.matchOf incident signal = some m) :
    c.ruleOf signal = some m.rule ∧ m.ruleID = m.rule.id ∧
      m.service = signalService incident signal (signalLabels signal) ∧
      m.labels = signalLabels signal ∧ m.observedAt = observedAtOf incident signal := by
  obtain ⟨⟨rule, reason⟩, hselect, rfl⟩ := Option.map_eq_some_iff.mp h
  exact ⟨by rw [ruleOf, hselect]; rfl, rfl, rfl, rfl, rfl⟩

theorem matchOf_isSome : (c.matchOf incident signal).isSome = (c.ruleOf signal).isSome := by
  simp [matchOf, ruleOf]

theorem mem_matchAll {m : Match} :
    m ∈ c.matchAll incident signals ↔ ∃ signal ∈ signals, c.matchOf incident signal = some m := by
  rw [matchAll, Sorting.mem_stableSort, List.mem_filterMap]

/-- A rule has a match exactly when some signal selects it. -/
theorem exists_match_iff {rule : Rule} :
    (∃ m ∈ c.matchAll incident signals, m.rule = rule) ↔
      ∃ signal ∈ signals, c.ruleOf signal = some rule := by
  constructor
  · rintro ⟨m, hm, rfl⟩
    obtain ⟨signal, hsignal, hmatch⟩ := mem_matchAll.mp hm
    exact ⟨signal, hsignal, (matchOf_eq_some hmatch).1⟩
  · rintro ⟨signal, hsignal, hrule⟩
    have hsome : (c.matchOf incident signal).isSome = true := by rw [matchOf_isSome, hrule]; rfl
    obtain ⟨m, hm⟩ := Option.isSome_iff_exists.mp hsome
    have hsame := (matchOf_eq_some hm).1
    rw [hrule] at hsame
    exact ⟨m, mem_matchAll.mpr ⟨signal, hsignal, hm⟩, (Option.some.inj hsame).symm⟩

theorem pairwise_matchAll (c : Correlator) (incident : IncidentRow) (signals : List Signal) :
    (c.matchAll incident signals).Pairwise fun a b => a.observedAt ≤ b.observedAt :=
  Sorting.pairwise_stableSort (fun _ _ => decide_eq_true_iff) _

end Correlator

end Argus.Correlation
