import Argus.Remediation.Store

/-!
# Control state and typed handlers

Target states with execution receipts. `applyOnce` merges a desired state into a target once for each
idempotency key: a receipt that exists is returned, and the target is not touched. The four typed
handlers are `applyOnce` (or a preview) of the state their action asks for.
-/

namespace Argus.Workers

open Remediation (RemediationAction ControlState Result Failure)
open Actions (Action)

/-- A row of `remediation_target_states`. -/
structure TargetState where
  resourceType : String
  target : String
  state : ControlState

/-- A row of `remediation_execution_receipts`. -/
structure Receipt where
  idempotencyKey : String
  actionType : String
  target : String
  result : Result

/-- The control-state tables. -/
structure Control where
  targets : List TargetState
  receipts : List Receipt

/-- A change of a target state, and the key it was made under. -/
structure Merge where
  idempotencyKey : String
  actionType : String
  resourceType : String
  target : String
  desired : ControlState

def currentState (targets : List TargetState) (resourceType target : String) : ControlState :=
  ((targets.find? fun t => t.resourceType == resourceType && t.target == target).map
    TargetState.state).getD []

/-- `mergeState`: the desired members override the current ones. -/
def mergeState (current desired : ControlState) : ControlState :=
  desired.foldl (fun merged m => SortedAssoc.insert GoJson.keyOrder m.1 m.2 merged) current

/-- The upsert of a target state. -/
def putState (targets : List TargetState) (resourceType target : String) (state : ControlState) :
    List TargetState :=
  if targets.any fun t => t.resourceType == resourceType && t.target == target then
    Table.updateIf (fun t => t.resourceType = resourceType ∧ t.target = target)
      (fun t => { t with state := state }) targets
  else targets ++ [⟨resourceType, target, state⟩]

/-- The target states after a merge. -/
def Merge.apply (targets : List TargetState) (m : Merge) : List TargetState :=
  putState targets m.resourceType m.target
    (mergeState (currentState targets m.resourceType m.target) m.desired)

def receipt (receipts : List Receipt) (key : String) : Option Receipt :=
  receipts.find? fun r => r.idempotencyKey == key

/-- The stored result with `reused` set. -/
def reuse : Result → Result
  | .control mode resourceType target before after _ =>
    .control mode resourceType target before after true
  | result => result

/-- `Preview`. -/
def preview (control : Control) (m : Merge) : Result :=
  let current := currentState control.targets m.resourceType m.target
  .control "dry-run" m.resourceType m.target current (mergeState current m.desired) false

/-- `ApplyOnce`: the result, the tables, and whether the target was changed. -/
def applyOnce (control : Control) (m : Merge) : Result × Control × Bool :=
  match receipt control.receipts m.idempotencyKey with
  | some r => (reuse r.result, control, false)
  | none =>
    let current := currentState control.targets m.resourceType m.target
    let after := mergeState current m.desired
    let result := .control "execute" m.resourceType m.target current after false
    (result,
      { targets := putState control.targets m.resourceType m.target after
        receipts := control.receipts ++ [⟨m.idempotencyKey, m.actionType, m.target, result⟩] },
      true)

theorem receipt_eq_none_iff {receipts : List Receipt} {key : String} :
    receipt receipts key = none ↔ ∀ r ∈ receipts, r.idempotencyKey ≠ key := by
  simp [receipt]

variable {control : Control} {m : Merge} {req : RemediationAction}

/-- A reused receipt changes nothing. -/
theorem applyOnce_of_receipt {r : Receipt} (h : receipt control.receipts m.idempotencyKey = some r) :
    applyOnce control m = (reuse r.result, control, false) := by
  simp only [applyOnce, h]

/-- A first application is one merge and one receipt under the key. -/
theorem applyOnce_of_none (h : receipt control.receipts m.idempotencyKey = none) :
    ∃ result, applyOnce control m =
      (result, ⟨m.apply control.targets,
        control.receipts ++ [⟨m.idempotencyKey, m.actionType, m.target, result⟩]⟩, true) :=
  ⟨_, by simp only [applyOnce, h]; rfl⟩

/-- Receipts are kept. -/
theorem receipts_subset_applyOnce (control : Control) (m : Merge) :
    control.receipts ⊆ (applyOnce control m).2.1.receipts := by
  cases h : receipt control.receipts m.idempotencyKey with
  | some r => simp [applyOnce_of_receipt h]
  | none =>
    obtain ⟨result, heq⟩ := applyOnce_of_none h
    simp [heq]

/-- A new receipt holds the result of a first application. -/
theorem mem_receipts_applyOnce {x : Receipt} (h : x ∈ (applyOnce control m).2.1.receipts) :
    x ∈ control.receipts ∨
      ∃ mode resourceType target before after,
        x.result = .control mode resourceType target before after false := by
  cases hreceipt : receipt control.receipts m.idempotencyKey with
  | some r =>
    rw [applyOnce_of_receipt hreceipt] at h
    exact .inl h
  | none =>
    simp only [applyOnce, hreceipt, List.mem_append, List.mem_singleton] at h
    rcases h with h | rfl
    · exact .inl h
    · exact .inr ⟨_, _, _, _, _, rfl⟩

/-- The answer is the result of a first application, or that of a receipt. -/
theorem result_applyOnce (control : Control) (m : Merge) :
    (∃ x ∈ control.receipts, (applyOnce control m).1 = reuse x.result) ∨
      ∃ mode resourceType target before after,
        (applyOnce control m).1 = .control mode resourceType target before after false := by
  cases hreceipt : receipt control.receipts m.idempotencyKey with
  | some r =>
    rw [applyOnce_of_receipt hreceipt]
    exact .inl ⟨r, List.mem_of_find?_eq_some hreceipt, rfl⟩
  | none =>
    simp only [applyOnce, hreceipt]
    exact .inr ⟨_, _, _, _, _, rfl⟩

/-- Once `applyOnce` has committed, there is a receipt under its key. -/
theorem exists_receipt_applyOnce (control : Control) (m : Merge) :
    ∃ r ∈ (applyOnce control m).2.1.receipts, r.idempotencyKey = m.idempotencyKey := by
  cases h : receipt control.receipts m.idempotencyKey with
  | some r =>
    rw [applyOnce_of_receipt h]
    exact ⟨r, List.mem_of_find?_eq_some h, by simpa [receipt] using List.find?_some h⟩
  | none =>
    obtain ⟨result, heq⟩ := applyOnce_of_none h
    simp [heq]

/-! ## Handlers -/

/-- The handlers backed by control state. -/
inductive TypedHandler where
  | podRestart
  | connectionPoolResize
  | featureFlagToggle
  | cachePurge
  deriving DecidableEq, Repr

namespace TypedHandler

def action : TypedHandler → Action
  | podRestart => .restartPod
  | connectionPoolResize => .resizeConnectionPool
  | featureFlagToggle => .toggleFeatureFlag
  | cachePurge => .purgeCache

def name (h : TypedHandler) : String := h.action.name

def resourceType : TypedHandler → String
  | podRestart => "pod"
  | connectionPoolResize => "connection_pool"
  | featureFlagToggle => "feature_flag"
  | cachePurge => "cache_prefix"

/-- `actions.Integer` of a parameter, as a handler passes it on: zero where it is no integer. -/
def number (parameters : Parameters) (key : String) : Json GoJson.Float :=
  .num (.ofInt ((Actions.integer (parameters.get key)).getD 0))

/-- The state an action asks for. -/
def desired (h : TypedHandler) (req : RemediationAction) : ControlState :=
  match h with
  | podRestart =>
    let namespace_ := String.ofList (req.target.toList.takeWhile (· ≠ '/'))
    let pod := String.ofList ((req.target.toList.dropWhile (· ≠ '/')).drop 1)
    [("namespace", .str namespace_), ("pod", .str pod), ("restart_token", .str req.idempotencyKey)]
  | connectionPoolResize => [("max_connections", number req.parameters "size")]
  | featureFlagToggle => [("enabled", (req.parameters.get "enabled").getD .null)]
  | cachePurge =>
    [("max_keys", number req.parameters "max_keys"), ("purge_token", .str req.idempotencyKey)]

/-- The merge an action asks for. -/
def merge (h : TypedHandler) (req : RemediationAction) : Merge where
  idempotencyKey := req.idempotencyKey
  actionType := h.name
  resourceType := h.resourceType
  target := req.target
  desired := h.desired req

end TypedHandler

/-- The check that a request is for a handler's action, and valid. -/
def validateAction (name : String) (req : RemediationAction) : Except String Unit :=
  if req.actionType ≠ name then
    .error ("handler " ++ name ++ " cannot execute action " ++ req.actionType)
  else Actions.validate name req.target req.parameters

/-- `validateTypedRequest`, with a control-state backend configured. -/
def validateTypedRequest (name : String) (req : RemediationAction) : Except String Unit :=
  if req.idempotencyKey = "" then .error "idempotency key is required"
  else validateAction name req

theorem validateAction_eq_ok_iff {name : String} :
    validateAction name req = .ok () ↔
      req.actionType = name ∧ Actions.validate name req.target req.parameters = .ok () := by
  unfold validateAction
  by_cases h : req.actionType = name <;> simp [h]

theorem validateTypedRequest_eq_ok_iff {name : String} :
    validateTypedRequest name req = .ok () ↔
      req.idempotencyKey ≠ "" ∧ validateAction name req = .ok () := by
  unfold validateTypedRequest
  by_cases h : req.idempotencyKey = "" <;> simp [h]

/-- A handler of the runner: one backed by control state, or one that only reports a message. -/
inductive Handler where
  | typed (h : TypedHandler)
  | static (name message : String)
  deriving DecidableEq, Repr

def Handler.name : Handler → String
  | typed h => h.name
  | static name _ => name

/-- `Validate`. -/
def Handler.validate : Handler → RemediationAction → Except String Unit
  | typed h, req => validateTypedRequest h.name req
  | static name _, req => validateAction name req

/-- The handler registered for an action type; a later registration replaces an earlier one. -/
def findHandler (handlers : List Handler) (actionType : String) : Option Handler :=
  handlers.reverse.find? fun h => h.name == actionType

/-- The typed handlers of `DefaultHandlers`. -/
def typedHandlers : List Handler :=
  [.typed .podRestart, .typed .connectionPoolResize, .typed .featureFlagToggle, .typed .cachePurge]

/-- The handlers of `DefaultHandlers` that only report a message. -/
def staticHandlers : List Handler :=
  [.static "restart_service"
      "Typed handler validated restart_service; local demo execution remains bounded and auditable",
    .static "rollback_config"
      "Typed handler validated rollback_config against known-good demo configuration",
    .static "reload_nginx" "Typed handler validated nginx reload for the demo environment",
    .static "clear_redis_keyspace"
      "Typed handler validated deletion scope for demo:pressure:* redis keys",
    .static "drain_postgres_connections"
      "Typed handler validated demo-only postgres connection drain",
    .static "revert_feature_flag"
      "Typed handler validated optional notification feature flag revert",
    .static "disable_bad_route"
      "Typed handler validated disabling only the affected bad demo route"]

/-- `DefaultHandlers`. -/
def defaultHandlers : List Handler := staticHandlers ++ typedHandlers

theorem exists_of_findHandler_typedHandlers {actionType : String} {h : Handler}
    (hfind : findHandler typedHandlers actionType = some h) : ∃ t, h = .typed t := by
  have hmem := List.mem_of_find?_eq_some hfind
  simp only [typedHandlers, List.mem_reverse, List.mem_cons, List.not_mem_nil, or_false] at hmem
  rcases hmem with rfl | rfl | rfl | rfl <;> exact ⟨_, rfl⟩

end Argus.Workers
