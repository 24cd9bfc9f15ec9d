import Argus.Actions.Parameters
import Argus.Base.Strings

/-!
# The action catalog

The registered remediation actions, their risk classes and the checks on their targets and
parameters.
-/

namespace Argus.Actions

open Strings (hasPrefix)

/-- The registered actions. -/
inductive Action where
  | collectDiagnostics
  | restartService
  | rollbackConfig
  | reloadNginx
  | clearRedisKeyspace
  | drainPostgresConnections
  | scaleWorkerSimulation
  | revertFeatureFlag
  | disableBadRoute
  | restartPod
  | resizeConnectionPool
  | toggleFeatureFlag
  | purgeCache
  deriving DecidableEq, Repr

namespace Action

def name : Action → String
  | collectDiagnostics => "collect_diagnostics"
  | restartService => "restart_service"
  | rollbackConfig => "rollback_config"
  | reloadNginx => "reload_nginx"
  | clearRedisKeyspace => "clear_redis_keyspace"
  | drainPostgresConnections => "drain_postgres_connections"
  | scaleWorkerSimulation => "scale_worker_simulation"
  | revertFeatureFlag => "revert_feature_flag"
  | disableBadRoute => "disable_bad_route"
  | restartPod => "restart_pod"
  | resizeConnectionPool => "resize_connection_pool"
  | toggleFeatureFlag => "toggle_feature_flag"
  | purgeCache => "purge_cache"

def all : List Action :=
  [collectDiagnostics, restartService, rollbackConfig, reloadNginx, clearRedisKeyspace,
    drainPostgresConnections, scaleWorkerSimulation, revertFeatureFlag, disableBadRoute, restartPod,
    resizeConnectionPool, toggleFeatureFlag, purgeCache]

/-- The action an action type names. -/
def ofName (s : String) : Option Action := all.find? fun a => a.name == s

/-- The authoritative risk class. -/
def risk : Action → String
  | collectDiagnostics => "low"
  | _ => "medium"

end Action

/-! ## Risk -/

/-- `risks[action]`, empty for an unregistered action. -/
def risk (action : String) : String := ((Action.ofName action).map Action.risk).getD ""

/-- `riskRank[risk]` with whether it is present. -/
def riskRank (risk : String) : Option ℕ :=
  if risk = "low" then some 1
  else if risk = "medium" then some 2
  else if risk = "high" then some 3
  else none

/-- The stricter of the catalog risk and a requested one. An unrecognised requested risk is returned
as it is. -/
def effectiveRisk (action requested : String) : String :=
  let catalog := risk action
  if requested = "" then catalog
  else match riskRank requested with
    | none => requested
    | some rank => if rank < (riskRank catalog).getD 0 then catalog else requested

def isRegistered (action : String) : Bool := (Action.ofName action).isSome

theorem risk_of_isRegistered {action : String} (h : isRegistered action = true) :
    risk action = "low" ∨ risk action = "medium" := by
  obtain ⟨a, ha⟩ := Option.isSome_iff_exists.mp h
  rw [risk, ha, Option.map_some, Option.getD_some]
  cases a <;> simp [Action.risk]

/-- A registered action is of low effective risk only if the catalog says so. -/
theorem risk_of_effectiveRisk_low {action requested : String} (hreg : isRegistered action = true)
    (h : effectiveRisk action requested = "low") : risk action = "low" := by
  rcases risk_of_isRegistered hreg with hlow | hmedium
  · exact hlow
  · -- a medium catalog class outranks a requested low one
    by_cases hempty : requested = ""
    · simpa [effectiveRisk, hempty] using h
    · by_cases hreq : requested = "low"
      · subst hreq
        simp [effectiveRisk, hmedium, riskRank] at h
      · simp only [effectiveRisk, hempty, if_false] at h
        split at h
        · exact absurd h hreq
        · split at h
          · exact h
          · exact absurd h hreq

/-! ## Validation

Parameters are decoded from JSON, or come from a rule of the correlator, where numbers are Go integers. The
checks are the same for both.
-/

/-- The numbers that `Integer` knows, and the integers they are. -/
class HasInteger (ν : Type) where
  integer : ν → Option ℤ

instance : HasInteger GoJson.Float := ⟨GoJson.Float.integer⟩

instance : HasInteger GoJson.Number := ⟨GoJson.Number.integer⟩

instance : HasInteger JsonText.Literal := ⟨JsonText.Literal.int64⟩

section

variable {ν : Type}

/-- `^[a-z0-9](?:[-a-z0-9]*[a-z0-9])?$`, at most 63 bytes. -/
def validDNSLabel (value : String) : Bool :=
  let alnum (c : Char) : Bool := ('a' ≤ c && c ≤ 'z') || ('0' ≤ c && c ≤ '9')
  value.utf8ByteSize ≤ 63 && value.toList.all (fun c => alnum c || c == '-') &&
    value.toList.head?.any alnum && value.toList.getLast?.any alnum

def validateKeys (parameters : GoMap ν) (required : List String) : Except String Unit :=
  if parameters.members.length ≠ required.length then
    .error ("expected parameters: " ++ String.intercalate ", " required)
  else match required.find? fun key => (parameters.get key).isNone with
    | some key => .error ("missing parameter \"" ++ key ++ "\"")
    | none => .ok ()

def validateCachePrefix (target : String) : Except String Unit :=
  if hasPrefix target "demo:" && ":*".toList.isSuffixOf target.toList &&
      target.toList.count '*' == 1 && 7 ≤ target.utf8ByteSize - 1 then .ok ()
  else .error "cache purge target must be a scoped demo:<segment>:* prefix"

def allowedFlags : List String :=
  ["payments-api/optional-notifications", "payments-api/checkout-v2",
    "checkout-api/async-confirmation"]

variable [HasInteger ν]

/-- `Integer(value)`. -/
def integer : Option (Json ν) → Option ℤ
  | some (.num n) => HasInteger.integer n
  | _ => none

/-- An integer parameter within bounds. -/
def validateInteger (parameters : GoMap ν) (key : String) (low high : ℤ) (message : String) :
    Except String Unit :=
  match integer (parameters.get key) with
  | some n => if low ≤ n ∧ n ≤ high then .ok () else .error message
  | none => .error message

def validateRestartPod (target : String) (parameters : GoMap ν) : Except String Unit := do
  validateKeys parameters []
  match Strings.split target '/' with
  | [environment, pod] =>
    if (environment = "local" ∨ environment = "demo") ∧ validDNSLabel pod then .ok ()
    else .error "pod target must be local/<pod> or demo/<pod>"
  | _ => .error "pod target must be local/<pod> or demo/<pod>"

def validateResizeConnectionPool (target : String) (parameters : GoMap ν) :
    Except String Unit := do
  if !validDNSLabel target then .error "connection-pool target must be a service name"
  validateKeys parameters ["size"]
  validateInteger parameters "size" 2 50
    "connection-pool size must be an integer between 2 and 50"

def validateToggleFeatureFlag (target : String) (parameters : GoMap ν) :
    Except String Unit := do
  if target ∉ allowedFlags then .error "feature flag target is not allow-listed"
  validateKeys parameters ["enabled"]
  match parameters.get "enabled" with
  | some (.bool _) => .ok ()
  | _ => .error "feature flag enabled must be a boolean"

def validatePurgeCache (target : String) (parameters : GoMap ν) : Except String Unit := do
  validateCachePrefix target
  validateKeys parameters ["max_keys"]
  validateInteger parameters "max_keys" 1 1000
    "cache purge max_keys must be an integer between 1 and 1000"

/-- `Validate(action, target, parameters)`. Actions without a case are accepted as they are. -/
def validate (action target : String) (parameters : GoMap ν) : Except String Unit :=
  match Action.ofName action with
  | some .restartPod => validateRestartPod target parameters
  | some .resizeConnectionPool => validateResizeConnectionPool target parameters
  | some .toggleFeatureFlag => validateToggleFeatureFlag target parameters
  | some .purgeCache => validatePurgeCache target parameters
  | some .clearRedisKeyspace =>
    if hasPrefix target "demo:pressure:" then .ok ()
    else .error "redis remediation is restricted to demo:pressure:* keys"
  | _ => .ok ()

end

end Argus.Actions
