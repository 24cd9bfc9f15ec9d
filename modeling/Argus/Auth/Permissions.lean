import Mathlib.Tactic.TypeStar

/-!
# Roles and permissions

`internal/auth/auth.go`: the permission set of each role and the check the middleware makes.
-/

namespace Argus.Auth

/-- The roles an identity-provider claim maps to (`validRole`). -/
inductive Role
  | admin
  | operator
  | viewer
  | ingester
deriving DecidableEq, Repr

inductive Permission
  | view
  | ingestSignal
  | manageIncident
  | generateRCA
  | proposeRemediation
  | approveRemediation
  | executeRemediation
  | viewAudit
  | manageService
  | reindexRunbook
  | manageDeadLetters
deriving DecidableEq, Repr

/-- `permissionsByRole`; the administrator has no entry because `Can` never looks one up. -/
def permissionsByRole : Role → List Permission
  | .admin => []
  | .operator =>
    [.view, .ingestSignal, .manageIncident, .generateRCA, .proposeRemediation,
      .approveRemediation, .executeRemediation, .reindexRunbook]
  | .viewer => [.view]
  | .ingester => [.ingestSignal]

/-- `Principal.Can`. -/
def Role.can (role : Role) (permission : Permission) : Bool :=
  role == .admin || (permissionsByRole role).contains permission

end Argus.Auth
