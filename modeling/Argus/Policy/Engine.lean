import Argus.Actions.Catalog

/-!
# The policy engine

`evaluate` decides whether a proposed remediation may run, and whether a person has to approve it
first. Its checks are made in the source's order; the first that fails gives the reason.
-/

namespace Argus.Policy

open Actions (effectiveRisk isRegistered)

/-- The reason of a decision. -/
inductive Reason where
  | viewer
  | missingRole
  | environment (name : String)
  | highRisk
  | unregistered
  | repeated
  | circuitBreaker
  | invalid (message : String)
  | low
  | medium
  | unknownRisk
  deriving DecidableEq, Repr

/-- The text of a reason; `quote` is the `%q` verb. -/
def Reason.text (quote : String → String) : Reason → String
  | viewer => "Viewer role cannot propose or execute remediation"
  | missingRole => "Actor role is missing"
  | environment name => "Remediation is not enabled for environment " ++ quote name
  | highRisk => "High-risk actions are blocked"
  | unregistered => "Remediation type is not registered"
  | repeated => "Too many repeated remediation attempts"
  | circuitBreaker => "Circuit breaker: repeated remediation failures"
  | invalid message => message
  | low => "Low-risk remediation is allowed"
  | medium => "Medium risk remediation requires approval"
  | unknownRisk => "Unknown remediation risk level"

/-- What the engine looks at. -/
structure Input where
  role : String
  environment : String
  type : String
  target : String
  risk : String
  parameters : Parameters
  sameActionLast10m : ℕ
  failedAttempts : ℕ

structure Decision where
  allow : Bool
  requiresApproval : Bool
  reason : Reason
  maxAttempts : ℕ
  risk : String
  deriving DecidableEq, Repr

/-- The default decision with a reason. -/
def Decision.deny (reason : Reason) (risk : String) : Decision where
  allow := false
  requiresApproval := true
  reason := reason
  maxAttempts := 1
  risk := risk

/-- The engine's environments. -/
structure Engine where
  environments : List String

/-- The listed environments, trimmed, without the blank ones. -/
def newEngineForEnvironments (environments : List String) : Engine where
  environments := (environments.map Strings.trimSpace).filter (· ≠ "")

/-- The decision once every check has passed. -/
def byRisk (risk : String) : Decision :=
  if risk = "low" then
    { allow := true, requiresApproval := false, reason := .low, maxAttempts := 2, risk := risk }
  else if risk = "medium" then
    { allow := true, requiresApproval := true, reason := .medium, maxAttempts := 1, risk := risk }
  else .deny .unknownRisk risk

def Engine.evaluate (e : Engine) (input : Input) : Decision :=
  let risk := effectiveRisk input.type input.risk
  if input.role = "viewer" then .deny .viewer ""
  else if input.role = "" then .deny .missingRole ""
  else if input.environment ∉ e.environments then .deny (.environment input.environment) ""
  else if risk = "high" then .deny .highRisk risk
  else if ¬ isRegistered input.type then .deny .unregistered risk
  else if 2 ≤ input.sameActionLast10m then .deny .repeated risk
  else if 2 ≤ input.failedAttempts then .deny .circuitBreaker risk
  else match Actions.validate input.type input.target input.parameters with
    | .error message => .deny (.invalid message) risk
    | .ok () => byRisk risk

/-! ## What an allowed decision says -/

/-- An allowed remediation passed every check. -/
structure Checked (e : Engine) (input : Input) : Prop where
  role : input.role ≠ "viewer" ∧ input.role ≠ ""
  environment : input.environment ∈ e.environments
  registered : isRegistered input.type = true
  repeated : input.sameActionLast10m < 2
  failures : input.failedAttempts < 2
  valid : Actions.validate input.type input.target input.parameters = .ok ()

theorem Engine.checked_of_allow {e : Engine} {input : Input}
    (h : (e.evaluate input).allow = true) :
    Checked e input ∧ e.evaluate input = byRisk (effectiveRisk input.type input.risk) := by
  simp only [Engine.evaluate] at h ⊢
  split_ifs at h ⊢ with hviewer hrole henv hhigh hreg hrepeated hfailed
  -- every failed check denies
  all_goals try cases h
  cases hvalid : Actions.validate input.type input.target input.parameters with
  | error message =>
    rw [hvalid] at h
    exact absurd h Bool.false_ne_true
  | ok _ =>
    exact ⟨⟨⟨hviewer, hrole⟩, henv, hreg, by omega, by omega, hvalid⟩, rfl⟩

/-- Only an action that the catalog classes as low is allowed without approval. -/
theorem Engine.risk_low_of_evaluate {e : Engine} {input : Input}
    (hallow : (e.evaluate input).allow = true)
    (happroval : (e.evaluate input).requiresApproval = false) :
    Actions.risk input.type = "low" := by
  obtain ⟨hchecked, heq⟩ := Engine.checked_of_allow hallow
  rw [heq] at happroval
  apply Actions.risk_of_effectiveRisk_low hchecked.registered
  by_contra hlow
  unfold byRisk at happroval
  rw [if_neg hlow] at happroval
  split at happroval <;> simp [Decision.deny] at happroval

end Argus.Policy
