import Dalston.Model.Rows

/-!
# Permissions and ownership

The security manager decides what a principal may do: a permission is granted
by one of the principal's scopes, and a resource is accessible within its
tenant to an admin and to the key that created it. A resource that is not
accessible is reported as one that does not exist.
-/

namespace Dalston.Gateway

open Model

/-- API key permission scopes. -/
inductive Scope
  | jobsRead | jobsWrite | realtime | webhooks | admin
  deriving DecidableEq

inductive Permission
  | jobCreate | jobRead | jobReadOwn | jobUpdate | jobUpdateOwn | jobDelete | jobDeleteOwn
  | jobCancel | jobCancelOwn
  | sessionCreate | sessionRead | sessionReadOwn
  | webhookCreate | webhookRead | webhookUpdate | webhookDelete
  | modelRead | modelWrite | modelPull | modelDelete | modelSync
  | apiKeyCreate | apiKeyRevoke | apiKeyList | settingsRead | settingsWrite | auditRead
  | consoleAccess
  deriving DecidableEq

def Permission.value : Permission → String
  | jobCreate => "job:create"
  | jobRead => "job:read"
  | jobReadOwn => "job:read:own"
  | jobUpdate => "job:update"
  | jobUpdateOwn => "job:update:own"
  | jobDelete => "job:delete"
  | jobDeleteOwn => "job:delete:own"
  | jobCancel => "job:cancel"
  | jobCancelOwn => "job:cancel:own"
  | sessionCreate => "session:create"
  | sessionRead => "session:read"
  | sessionReadOwn => "session:read:own"
  | webhookCreate => "webhook:create"
  | webhookRead => "webhook:read"
  | webhookUpdate => "webhook:update"
  | webhookDelete => "webhook:delete"
  | modelRead => "model:read"
  | modelWrite => "model:write"
  | modelPull => "model:pull"
  | modelDelete => "model:delete"
  | modelSync => "model:sync"
  | apiKeyCreate => "api_key:create"
  | apiKeyRevoke => "api_key:revoke"
  | apiKeyList => "api_key:list"
  | settingsRead => "settings:read"
  | settingsWrite => "settings:write"
  | auditRead => "audit:read"
  | consoleAccess => "console:access"

/-- `SCOPE_PERMISSIONS`: whether the scope grants the permission. -/
def Scope.grants : Scope → Permission → Bool
  | .jobsRead, permission =>
      permission ∈ [.jobRead, .jobReadOwn, .sessionRead, .sessionReadOwn, .modelRead]
  | .jobsWrite, permission =>
      permission ∈ [.jobCreate, .jobUpdateOwn, .jobDeleteOwn, .jobCancelOwn]
  | .realtime, permission => permission ∈ [Permission.sessionCreate]
  | .webhooks, permission =>
      permission ∈ [.webhookCreate, .webhookRead, .webhookUpdate, .webhookDelete]
  | .admin, _ => true

/-- An authenticated entity making a request. -/
structure Principal where
  /-- The id of the API key. -/
  id : Uuid
  tenantId : Uuid
  scopes : List Scope

def Principal.isAdmin (principal : Principal) : Bool := Scope.admin ∈ principal.scopes

inductive SecurityMode
  | none | apiKey | user
  deriving DecidableEq

/-- What an error names: a row's id, or the text the caller gave for it. -/
inductive ResourceId
  | uuid (id : Uuid)
  | text (id : String)

/-- The exceptions that the services raise. -/
inductive ServiceError
  | authorization (message : String) (requiredPermission : Permission)
  /-- `{resource_type} not found: {resource_id}`. -/
  | resourceNotFound (resourceType : String) (resourceId : ResourceId)
  | value (message : String)
  | assertion

namespace SecurityMode

def hasPermission (mode : SecurityMode) (principal : Principal) (permission : Permission) : Bool :=
  if mode = .none then true
  else if Scope.admin ∈ principal.scopes then true
  else principal.scopes.any fun scope => scope.grants permission

def requirePermission (mode : SecurityMode) (principal : Principal) (permission : Permission) :
    Except ServiceError Unit :=
  if !mode.hasPermission principal permission then
    throw (.authorization s!"Missing required permission: {permission.value}" permission)
  else return ()

/-- A resource is accessible within its tenant, to an admin and to its creator. -/
def canAccessResource (mode : SecurityMode) (principal : Principal) (resourceTenantId : Uuid)
    (resourceCreatedBy : Option Uuid) : Bool :=
  if mode = .none then true
  else if principal.tenantId ≠ resourceTenantId then false
  else if Scope.admin ∈ principal.scopes then true
  else some principal.id = resourceCreatedBy

def requireResourceAccess (mode : SecurityMode) (principal : Principal) (resourceTenantId : Uuid)
    (resourceType : String) (resourceId : ResourceId) (resourceCreatedBy : Option Uuid) :
    Except ServiceError Unit :=
  if !mode.canAccessResource principal resourceTenantId resourceCreatedBy then
    throw (.resourceNotFound resourceType resourceId)
  else return ()

end SecurityMode

end Dalston.Gateway
