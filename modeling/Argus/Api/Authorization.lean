import Argus.Api.Routes

/-!
# Authorization of API requests

`requiredPermission` parses the path a second time, on its own, before the mux routes the request.
The two parsers agree on every method and path but one family: an approval decision whose path
carries extra slashes. `handleApprovalRequests` trims slashes before it splits, `requiredPermission`
does not, so such a request asks for the view permission only and still reaches the decision.
-/

namespace Argus.Api

open Strings
open Auth (Permission Role)

/-! ## The permission of a request -/

/-- The cases of `requiredPermission` below `/v1/incidents/`. -/
def incidentPermission : List String → Permission
  | [_, "ack"] | [_, "resolve"] => .manageIncident
  | [_, "rca", "generate"] | [_, "remediations", "suggest"] => .generateRCA
  | [_, "remediations", "propose"] => .proposeRemediation
  | _ => .view

/-- The cases of `requiredPermission` below `/v1/remediations/`. -/
def remediationPermission : List String → Permission
  | [_, "approve"] | [_, "reject"] => .approveRemediation
  | [_, "execute"] | [_, "cancel"] => .executeRemediation
  | _ => .view

/-- The cases of `requiredPermission` below `/v1/approval-requests/`. -/
def approvalPermission (method : Method) : List String → Permission
  | [_, "decision"] => if method = "POST" then .approveRemediation else .view
  | _ => .view

/-- `requiredPermission`: the cases of its switch in order; what no case returns needs the view
permission. -/
def requiredPermission (method : Method) (path : String) : Permission :=
  if path = "/v1/auth/me" ∧ method = "GET" then .view
  else if path = "/v1/alerts/alertmanager" ∨ path = "/v1/signals/manual" then .ingestSignal
  else if path = "/v1/incidents" ∧ method = "GET" then .view
  else if path = "/v1/incidents" ∧ method = "POST" then .manageIncident
  else if hasPrefix path "/v1/incidents/" then
    incidentPermission (split (trimPrefix path "/v1/incidents/") '/')
  else if hasPrefix path "/v1/remediations/" then
    remediationPermission (split (trimPrefix path "/v1/remediations/") '/')
  else if path = "/v1/approval-requests" ∧ method = "GET" then .view
  else if hasPrefix path "/v1/approval-requests/" then
    approvalPermission method (split (trimPrefix path "/v1/approval-requests/") '/')
  else if path = "/v1/audit" ∨ path = "/v1/audit/verify" then .viewAudit
  else if path = "/v1/dead-letters" ∨ hasPrefix path "/v1/dead-letters/" then .manageDeadLetters
  else if path = "/v1/services" ∧ method = "GET" then .view
  else if path = "/v1/services" ∧ method = "POST" then .manageService
  else if path = "/v1/topology" ∧ method = "GET" then .view
  else if path = "/v1/topology/dependencies" ∧ method = "POST" then .manageService
  else if path = "/v1/runbooks" ∧ method = "GET" then .view
  else if path = "/v1/runbooks/reindex" then .reindexRunbook
  else .view

def isPublicRoute (path : String) : Bool :=
  path == "/healthz" || path == "/readyz" || path == "/metrics" ||
    path == "/v1/approval-callbacks/slack"

/-- `authMiddleware` in front of the mux; `principal` is the role of a verified bearer token. -/
def serve (principal : Option Role) (method : Method) (path : String) : Reply :=
  if isPublicRoute path then dispatch method path
  else match principal with
    | none => .refused 401 "missing or invalid bearer token"
    | some role =>
      if role.can (requiredPermission method path) then dispatch method path
      else .refused 403 "role is not allowed to perform this action"

/-! ## Agreement of the two parsers -/

/-- The permission asked for is the permission of every operation the request reaches. -/
def PermissionAgrees (method : Method) (path : String) : Prop :=
  ∀ op id, dispatch method path = .run op id → requiredPermission method path = op.permission

/-- An operation runs only for a principal whose role has its permission. -/
def RunsOnlyPermitted (method : Method) (path : String) : Prop :=
  ∀ principal op id, serve principal method path = .run op id →
    ∃ role, principal = some role ∧ role.can op.permission = true

/-- The text below `/v1/approval-requests/` that `handleApprovalRequests` reads as the decision on
request `id`: extra slashes on either side are trimmed. -/
def paddedDecision (i j : ℕ) (id : String) : String :=
  repeated i '/' ++ (id ++ "/" ++ "decision") ++ repeated j '/'

/-- A `POST` to an approval decision with extra slashes before the request id or after the path. -/
def SlashPaddedDecision (method : Method) (path : String) : Prop :=
  method = "POST" ∧ ∃ (id : String) (i j : ℕ), id ≠ "" ∧ '/' ∉ id.toList ∧ 0 < i + j ∧
    path = "/v1/approval-requests/" ++ paddedDecision i j id

/-! Below a subtree only the case of that subtree applies. -/

variable {method : Method} {path : String}

theorem requiredPermission_incidents (h : hasPrefix path "/v1/incidents/" = true) :
    requiredPermission method path
      = incidentPermission (split (trimPrefix path "/v1/incidents/") '/') := by
  simp (disch := decide) [requiredPermission, h, ne_of_hasPrefix h]

theorem requiredPermission_remediations (h : hasPrefix path "/v1/remediations/" = true) :
    requiredPermission method path
      = remediationPermission (split (trimPrefix path "/v1/remediations/") '/') := by
  simp (disch := decide) [requiredPermission, h, ne_of_hasPrefix h,
    hasPrefix_false_of_incomparable h]

theorem requiredPermission_approvals (h : hasPrefix path "/v1/approval-requests/" = true) :
    requiredPermission method path
      = approvalPermission method (split (trimPrefix path "/v1/approval-requests/") '/') := by
  simp (disch := decide) [requiredPermission, h, ne_of_hasPrefix h,
    hasPrefix_false_of_incomparable h]

theorem requiredPermission_deadLetters (h : hasPrefix path "/v1/dead-letters/" = true) :
    requiredPermission method path = .manageDeadLetters := by
  simp (disch := decide) [requiredPermission, h, ne_of_hasPrefix h,
    hasPrefix_false_of_incomparable h]

/-! Each subtree handler against the permission of its parts. -/

variable {op : Operation} {id : String}

theorem incidentRoutes_agree (h : handleIncidentRoutes method path = .run op id) :
    incidentPermission (split (trimPrefix path "/v1/incidents/") '/') = op.permission := by
  simp only [handleIncidentRoutes, handleIncidentStateChange, onlyMethod, incidentRouteNotFound,
    Reply.methodNotAllowed] at h
  generalize split (trimPrefix path "/v1/incidents/") '/' = parts at h ⊢
  split at h
  · simp at h
  · split at h
    · simp at h
    · split at h <;> (try split at h) <;> simp at h <;> (obtain ⟨rfl, -⟩ := h) <;> rfl

theorem remediationRoutes_agree (h : handleRemediationRoutes method path = .run op id) :
    remediationPermission (split (trimPrefix path "/v1/remediations/") '/') = op.permission := by
  simp only [handleRemediationRoutes, onlyMethod, Reply.methodNotAllowed] at h
  generalize split (trimPrefix path "/v1/remediations/") '/' = parts at h ⊢
  split at h
  · split at h <;> (try split at h) <;> simp at h <;> (obtain ⟨rfl, -⟩ := h) <;> rfl
  · simp at h

theorem deadLetterRoutes_agree (h : handleDeadLetterRoutes method path = .run op id) :
    op.permission = .manageDeadLetters := by
  simp only [handleDeadLetterRoutes, Reply.methodNotAllowed] at h
  split at h
  · split at h
    · simp at h
    · split at h <;> simp at h
      obtain ⟨rfl, -⟩ := h
      rfl
  · split at h
    · simp at h
    · split at h <;> simp at h
      obtain ⟨rfl, -⟩ := h
      rfl
  · simp at h

/-! ## Approval decisions -/

theorem trimPrefix_approvals (r : String) :
    trimPrefix ("/v1/approval-requests/" ++ r) "/v1/approval-requests" = "/" ++ r := by
  have h : "/v1/approval-requests/" ++ r = "/v1/approval-requests" ++ ("/" ++ r) := by
    rw [← String.append_assoc]
    rfl
  rw [h, trimPrefix_append]

/-- The decision text of a nonempty, slash-free id neither starts nor ends with a slash. -/
theorem trim_paddedDecision (hid : id ≠ "") (hslash : '/' ∉ id.toList) (i j : ℕ) :
    trim (paddedDecision i j id) '/' = id ++ "/" ++ "decision" := by
  have hne : id.toList ≠ [] := by simpa using hid
  have hof : id ++ "/" ++ "decision" = String.ofList (id.toList ++ "/decision".toList) := by
    rw [← String.toList_inj]
    simp
  rw [paddedDecision, hof]
  exact trim_repeated_append i j hne (by simp) hslash (by decide)

/-- A text trimmed to a decision is a padded decision. -/
theorem eq_paddedDecision_of_trim {r : String}
    (h : split (trim ("/" ++ r) '/') '/' = [id, "decision"]) :
    id ≠ "" ∧ '/' ∉ id.toList ∧ ∃ i j, r = paddedDecision i j id := by
  have htrim := eq_of_split_pair h
  have hslash : '/' ∉ id.toList := sep_not_mem_of_mem_split (h ▸ List.mem_cons_self)
  have hid : id ≠ "" := by
    rintro rfl
    exact head_trim_ne ("/" ++ r) '/' "decision" (by rw [htrim]; rfl)
  refine ⟨hid, hslash, ?_⟩
  obtain ⟨i, j, hij⟩ := exists_eq_repeated_trim ("/" ++ r) '/'
  rw [htrim] at hij
  have hl := congrArg String.toList hij
  cases i with
  | zero =>
    -- the leading slash would have to be the first character of the id
    obtain ⟨c, cs, hc⟩ := List.exists_cons_of_ne_nil (l := id.toList) (by simpa using hid)
    simp [repeated, hc] at hl
    exact absurd (hl.1 ▸ hc ▸ List.mem_cons_self) hslash
  | succ i =>
    refine ⟨i, j, ?_⟩
    rw [← String.toList_inj]
    simpa [paddedDecision, repeated, List.replicate_succ] using hl

/-- `requiredPermission` recognises a decision only when its text has no padding. -/
theorem approvalPermission_paddedDecision (hslash : '/' ∉ id.toList) (i j : ℕ) :
    approvalPermission "POST" (split (paddedDecision i j id) '/') = .approveRemediation
      ↔ i + j = 0 := by
  constructor
  · intro h
    unfold approvalPermission at h
    split at h
    · rename_i a hparts
      have ha : '/' ∉ a.toList := sep_not_mem_of_mem_split (hparts ▸ List.mem_cons_self)
      have hcount := congrArg (fun s => s.toList.count '/') (eq_of_split_pair hparts)
      simp [paddedDecision, repeated, List.count_eq_zero_of_not_mem ha,
        List.count_eq_zero_of_not_mem hslash] at hcount
      omega
    · simp at h
  · intro h
    obtain ⟨rfl, rfl⟩ : i = 0 ∧ j = 0 := by omega
    have hplain : paddedDecision 0 0 id = id ++ String.singleton '/' ++ "decision" := by
      rw [← String.toList_inj]
      simp [paddedDecision, repeated]
    rw [hplain, split_pair hslash (by decide)]
    rfl

theorem handleApprovalRequests_paddedDecision (hid : id ≠ "") (hslash : '/' ∉ id.toList) (i j : ℕ) :
    handleApprovalRequests "POST" ("/v1/approval-requests/" ++ paddedDecision i j id)
      = .run .decideApproval id := by
  have htrim : trim ("/" ++ paddedDecision i j id) '/' = id ++ String.singleton '/' ++ "decision" := by
    have h : "/" ++ paddedDecision i j id = paddedDecision (i + 1) j id := by
      rw [← String.toList_inj]
      simp [paddedDecision, repeated, List.replicate_succ]
    rw [h, trim_paddedDecision hid hslash]
    rfl
  have hne : ¬("/" ++ paddedDecision i j id = "" ∨ "/" ++ paddedDecision i j id = "/") := by
    rintro (h | h) <;> (rw [h] at htrim; have hl := congrArg String.toList htrim; simp [trim] at hl)
  simp only [handleApprovalRequests, trimPrefix_approvals, if_neg hne, htrim,
    split_pair hslash (by decide : '/' ∉ "decision".toList)]
  rfl

theorem approvalRequests_run {r : String}
    (h : handleApprovalRequests method ("/v1/approval-requests/" ++ r) = .run op id) :
    method = "POST" ∧ op = .decideApproval ∧ id ≠ "" ∧ '/' ∉ id.toList ∧
      ∃ i j, r = paddedDecision i j id := by
  simp only [handleApprovalRequests, trimPrefix_approvals, onlyMethod, Reply.methodNotAllowed] at h
  split at h
  · split at h <;> simp at h
  · split at h
    · split at h <;> simp at h
    · rename_i hparts
      split at h <;> simp at h
      rename_i hm
      obtain ⟨rfl, rfl⟩ := h
      exact ⟨hm, rfl, eq_paddedDecision_of_trim hparts⟩
    · simp at h

/-! ## All routes -/

theorem onlyMethod_eq_run {allowed : Method} {reply : Reply}
    (h : onlyMethod allowed reply method = .run op id) : method = allowed ∧ reply = .run op id := by
  unfold onlyMethod at h
  split at h
  · simp [Reply.methodNotAllowed] at h
  · rename_i hm
    exact ⟨not_not.mp hm, h⟩

theorem listOrCreate_eq_run {view : View} {viewID : String} {create : Reply}
    (h : listOrCreate (.view view viewID) create method = .run op id) :
    method = "POST" ∧ create = .run op id := by
  unfold listOrCreate at h
  split at h
  · simp at h
  · exact ⟨rfl, h⟩
  · simp [Reply.methodNotAllowed] at h

/-- Outside the approval subtree the permission asked for is that of the operation reached. -/
theorem requiredPermission_of_dispatch (h : dispatch method path = .run op id) :
    requiredPermission method path = op.permission ∨
      hasPrefix path "/v1/approval-requests/" = true ∧
        handleApprovalRequests method path = .run op id := by
  simp only [dispatch] at h
  split at h
  case h_2 => simp at h
  rename_i handle hhandle
  obtain ⟨p, hmem, hp⟩ := ServeMux.pattern_of_handler_eq_some hhandle
  simp only [routes, List.mem_cons, Prod.mk.injEq, List.not_mem_nil, or_false] at hmem
  have hexact : ServeMux.isSubtree p = false → path = p := fun hsub => by
    rcases hp with hp | hp
    · exact hp
    · simp [hsub] at hp
  have hbelow : ServeMux.isSubtree p = true → hasPrefix path p = true := fun _ => by
    rcases hp with rfl | hp
    · exact hasPrefix_iff.mpr ⟨"", by simp⟩
    · exact hp.2
  rcases hmem with hr | hr | hr | hr | hr | hr | hr | hr | hr | hr | hr | hr | hr | hr | hr | hr |
    hr | hr | hr | hr | hr <;> obtain ⟨rfl, rfl⟩ := hr
  case inr.inr.inr.inr.inr.inr.inr.inl =>
    exact Or.inl ((requiredPermission_incidents (hbelow (by decide))).trans (incidentRoutes_agree h))
  case inr.inr.inr.inr.inr.inr.inr.inr.inl =>
    exact Or.inl
      ((requiredPermission_remediations (hbelow (by decide))).trans (remediationRoutes_agree h))
  case inr.inr.inr.inr.inr.inr.inr.inr.inr.inr.inl =>
    exact Or.inr ⟨hbelow (by decide), h⟩
  case inr.inr.inr.inr.inr.inr.inr.inr.inr.inr.inr.inr.inr.inr.inr.inl =>
    exact Or.inl
      ((requiredPermission_deadLetters (hbelow (by decide))).trans (deadLetterRoutes_agree h).symm)
  case inr.inr.inr.inr.inr.inr.inr.inr.inr.inl =>
    obtain rfl := hexact (by decide)
    exact absurd (onlyMethod_eq_run h).2 (by simp)
  -- the other patterns match only themselves and their handlers parse no path
  all_goals
    left
    obtain rfl := hexact (by decide)
    first
      | exact Reply.noConfusion h
      | obtain ⟨rfl, hreply⟩ := onlyMethod_eq_run h
        cases hreply <;> rfl
      | obtain ⟨rfl, hreply⟩ := listOrCreate_eq_run h
        cases hreply
        rfl

theorem permissionAgrees_of_not_padded (hpad : ¬ SlashPaddedDecision method path) :
    PermissionAgrees method path := by
  intro op id h
  rcases requiredPermission_of_dispatch h with hagree | ⟨hpre, hrun⟩
  · exact hagree
  · obtain ⟨r, rfl⟩ := hasPrefix_iff.mp hpre
    obtain ⟨rfl, rfl, hid, hslash, i, j, rfl⟩ := approvalRequests_run hrun
    have hij : i + j = 0 := by
      by_contra hij
      exact hpad ⟨rfl, id, i, j, hid, hslash, Nat.pos_of_ne_zero hij, rfl⟩
    rw [requiredPermission_approvals hpre, trimPrefix_append]
    exact (approvalPermission_paddedDecision hslash i j).mpr hij

/-- A public route reaches no operation of a role. -/
theorem dispatch_publicRoute (h : isPublicRoute path = true) (op : Operation) (id : String) :
    dispatch method path ≠ .run op id := by
  simp only [isPublicRoute, Bool.or_eq_true, beq_iff_eq] at h
  rcases h with ((rfl | rfl) | rfl) | rfl
  · exact Reply.noConfusion
  · exact Reply.noConfusion
  · exact Reply.noConfusion
  · intro hrun
    exact Reply.noConfusion (onlyMethod_eq_run hrun).2

theorem runsOnlyPermitted_of_permissionAgrees (h : PermissionAgrees method path) :
    RunsOnlyPermitted method path := by
  intro principal op id hserve
  unfold serve at hserve
  split at hserve
  · rename_i hpublic
    exact absurd hserve (dispatch_publicRoute hpublic op id)
  · cases principal with
    | none => simp at hserve
    | some role =>
      simp only at hserve
      split at hserve
      · rename_i hcan
        exact ⟨role, rfl, h op id hserve ▸ hcan⟩
      · simp at hserve

/-- The mux routes everything below `/v1/approval-requests/` to `handleApprovalRequests`. -/
theorem dispatch_approvals (h : hasPrefix path "/v1/approval-requests/" = true) :
    dispatch method path = handleApprovalRequests method path := by
  have hhandler : ServeMux.handler routes path = some handleApprovalRequests := by
    refine ServeMux.handler_of_unique (p := "/v1/approval-requests/") (by simp [routes]) (by decide)
      h ?_
    intro r hr hmatch
    simp only [routes, List.mem_cons, List.not_mem_nil, or_false] at hr
    rcases hr with rfl | rfl | rfl | rfl | rfl | rfl | rfl | rfl | rfl | rfl | rfl | rfl | rfl |
      rfl | rfl | rfl | rfl | rfl | rfl | rfl | rfl
    all_goals
      first
        | rfl
        | exact absurd hmatch (not_or.mpr ⟨ne_of_hasPrefix h (by decide), fun hm => by
            simp (disch := decide) [ServeMux.isSubtree, hasPrefix_false_of_incomparable h] at hm⟩)
  simp only [dispatch, hhandler]

/-- A padded decision is served, but asks for the view permission only. -/
theorem not_permissionAgrees_of_padded (hpad : SlashPaddedDecision method path) :
    ¬ PermissionAgrees method path := by
  obtain ⟨rfl, id, i, j, hid, hslash, hij, rfl⟩ := hpad
  intro hagree
  have hpre := hasPrefix_append "/v1/approval-requests/" (paddedDecision i j id)
  have hrun := (dispatch_approvals hpre).trans
    (handleApprovalRequests_paddedDecision hid hslash i j)
  have hperm := hagree _ _ hrun
  rw [requiredPermission_approvals hpre, trimPrefix_append] at hperm
  have := (approvalPermission_paddedDecision hslash i j).mp hperm
  omega

/-- Authorization agrees with routing exactly when the request is no padded approval decision. -/
theorem authorization_agrees_with_routing (method : Method) (path : String) :
    (PermissionAgrees method path ∧ RunsOnlyPermitted method path)
      ↔ ¬ SlashPaddedDecision method path := by
  constructor
  · intro h hpad
    exact not_permissionAgrees_of_padded hpad h.1
  · intro hpad
    have hagree := permissionAgrees_of_not_padded hpad
    exact ⟨hagree, runsOnlyPermitted_of_permissionAgrees hagree⟩

/-- A viewer decides an approval by adding a slash to the path. -/
theorem viewer_decides_approval :
    requiredPermission "POST" "/v1/approval-requests/x/decision/" = .view ∧
      Role.viewer.can Operation.decideApproval.permission = false ∧
      serve (some .viewer) "POST" "/v1/approval-requests/x/decision/"
        = .run .decideApproval "x" := by
  decide

end Argus.Api
