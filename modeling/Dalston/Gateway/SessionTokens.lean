import Dalston.Foundation.Dict
import Dalston.Foundation.Pool
import Dalston.Gateway.Security

/-!
# Session tokens

A session token is a Redis hash under the hash of its raw text. A single-use
token is consumed by setting a field of the hash that is not there yet. The
field is set some time after the hash was read, and a hash that has expired or
was revoked in between is created anew by it.

## Implementation notes

Time is in milliseconds. A field of the hash holds what its text stands for.
Random raw tokens and the hash function are arguments. The store also keeps
what has happened to its keys, which no call reads.
-/

namespace Dalston.Gateway.Tokens

open Foundation Model

def TOKEN_PREFIX : String := "tk_"

/-- The value of the string enumeration. -/
def scopeValue : Scope → String
  | .jobsRead => "jobs:read"
  | .jobsWrite => "jobs:write"
  | .realtime => "realtime"
  | .webhooks => "webhooks"
  | .admin => "admin"

/-- What the text of a field stands for. -/
inductive FieldValue
  | text (s : String)
  | uuid (id : Uuid)
  | scopes (scopes : List Scope)
  | time (t : Nat)
  | flag (b : Bool)
  deriving DecidableEq

structure SessionToken where
  tokenHash : String
  tenantId : Uuid
  parentKeyId : Uuid
  scopes : List Scope
  expiresAt : Nat
  createdAt : Nat
  tokenType : String
  singleUse : Bool
  consumedAt : Option Nat

inductive TokenError
  | keyError (key : String)
  | valueError (message : String)

namespace SessionToken

def isExpired (token : SessionToken) (now : Nat) : Bool := decide (token.expiresAt < now)

/-- `consumed_at` stays absent until the token is consumed. -/
def toDict (token : SessionToken) : Dict FieldValue :=
  let data : Dict FieldValue := [
    ("token_hash", .text token.tokenHash),
    ("tenant_id", .uuid token.tenantId),
    ("parent_key_id", .uuid token.parentKeyId),
    ("scopes", .scopes token.scopes),
    ("expires_at", .time token.expiresAt),
    ("created_at", .time token.createdAt),
    ("token_type", .text token.tokenType),
    ("single_use", .flag token.singleUse)]
  match token.consumedAt with
  | some consumedAt => data.set "consumed_at" (.time consumedAt)
  | none => data

end SessionToken

section Fields

variable (data : Dict FieldValue) (key : String)

/-- `data[key]`. -/
def item : Except TokenError FieldValue :=
  match data.get? key with
  | some value => .ok value
  | none => .error (.keyError key)

def invalid {A : Type} : Except TokenError A := .error (.valueError s!"Invalid {key}")

def textItem : Except TokenError String := do
  match ← item data key with
  | .text s => return s
  | _ => invalid key

def uuidItem : Except TokenError Uuid := do
  match ← item data key with
  | .uuid id => return id
  | _ => invalid key

def scopesItem : Except TokenError (List Scope) := do
  match ← item data key with
  | .scopes scopes => return scopes
  | _ => invalid key

def timeItem : Except TokenError Nat := do
  match ← item data key with
  | .time t => return t
  | _ => invalid key

end Fields

/-- `datetime.fromisoformat(consumed_at_raw) if consumed_at_raw else None`. -/
def consumedAtOf (data : Dict FieldValue) : Except TokenError (Option Nat) :=
  match data.get? "consumed_at" with
  | some (.time t) => .ok (some t)
  | some _ => invalid "consumed_at"
  | none => .ok none

namespace SessionToken

def fromDict (data : Dict FieldValue) : Except TokenError SessionToken := do
  let tokenHash ← textItem data "token_hash"
  let tenantId ← uuidItem data "tenant_id"
  let parentKeyId ← uuidItem data "parent_key_id"
  let scopes ← scopesItem data "scopes"
  let expiresAt ← timeItem data "expires_at"
  let createdAt ← timeItem data "created_at"
  let tokenType :=
    match data.get? "token_type" with
    | some (.text s) => s
    | _ => "realtime"
  let singleUse := decide (data.get? "single_use" = some (.flag true))
  let consumedAt ← consumedAtOf data
  return { tokenHash, tenantId, parentKeyId, scopes, expiresAt, createdAt, tokenType, singleUse,
           consumedAt }

end SessionToken

/-- The fields of an API key that a token inherits. -/
structure APIKey where
  id : Uuid
  tenantId : Uuid
  scopes : List Scope

def APIKey.hasScope (key : APIKey) (scope : Scope) : Bool :=
  decide (Scope.admin ∈ key.scopes ∨ scope ∈ key.scopes)

/-- A Redis hash and when it expires. -/
structure TokenKey where
  fields : Dict FieldValue
  expireAt : Option Nat

/-- What has happened to a key. -/
inductive TokenMark
  | created (expiresAt : Nat)
  /-- `consumed_at` was set at this time. -/
  | consumed (at_ : Nat)
  | revoked
  deriving DecidableEq

structure TokenStore where
  now : Nat
  keys : String → Option TokenKey
  /-- The latest mark comes first. -/
  marks : List (String × TokenMark)

namespace TokenStore

/-- Redis without tokens. -/
def fresh : TokenStore := ⟨0, fun _ => none, []⟩

/-- The hash that a command finds under the key. -/
def find (s : TokenStore) (key : String) : Option TokenKey :=
  (s.keys key).filter fun k => k.expireAt.all fun t => s.now ≤ t

def put (s : TokenStore) (key : String) (value : Option TokenKey) : TokenStore :=
  { s with keys := Function.update s.keys key value }

def mark (s : TokenStore) (key : String) (m : TokenMark) : TokenStore :=
  { s with marks := (key, m) :: s.marks }

/-- The hash has the field. -/
def has (s : TokenStore) (key field : String) : Bool :=
  (s.find key).any fun k => k.fields.contains field

end TokenStore

inductive TokenEffect
  /-- `datetime.now(UTC)`. -/
  | clock
  | hgetall (key : String)
  /-- `HSET key` with the fields of the token. -/
  | hset (key : String) (token : SessionToken)
  /-- `EXPIRE`, in seconds. -/
  | expire (key : String) (ttl : Nat)
  /-- `HSETNX key consumed_at t`. -/
  | hsetnx (key : String) (t : Nat)
  | delete (key : String)
  | timePasses (duration : Nat)

def TokenEffect.apply (e : TokenEffect) (s : TokenStore) : TokenStore :=
  match e with
  | .clock | .hgetall _ => s
  | .hset key token =>
      let old := (s.find key).getD ⟨[], none⟩
      (s.put key (some { old with fields := old.fields.merge token.toDict })).mark key
        (.created token.expiresAt)
  | .expire key ttl =>
      match s.find key with
      | none => s
      | some k =>
          if ttl = 0 then s.put key none
          else s.put key (some { k with expireAt := some (s.now + ttl * 1000) })
  | .hsetnx key t =>
      if s.has key "consumed_at" then s
      else
        let old := (s.find key).getD ⟨[], none⟩
        (s.put key (some { old with fields := old.fields.set "consumed_at" (.time t) })).mark key
          (.consumed s.now)
  | .delete key =>
      if (s.find key).isSome then (s.put key none).mark key .revoked else s
  | .timePasses duration => { s with now := s.now + duration }

instance : Interprets TokenEffect TokenStore := ⟨TokenEffect.apply⟩

abbrev TokenOp (A : Type) := Program TokenEffect TokenStore A

/-- `REDIS_SESSION_TOKEN.format(hash=token_hash)`. -/
def redisSessionToken (hash : String) : String := "dalston:session_token:" ++ hash

/-- What a call returns or raises. -/
inductive TokenReply
  | created (token : SessionToken)
  /-- The token of a validation or a consumption that was successful. -/
  | accepted (token : SessionToken)
  | rejected
  | revoked (found : Bool)
  | raised (error : TokenError)

section Calls

variable (hashApiKey : String → String)

/-- The arguments of `create_session_token`, and the raw token that is drawn. -/
structure Creation where
  apiKey : APIKey
  ttl : Nat
  scopes : List Scope
  tokenType : String
  singleUse : Bool
  rawToken : String

/-- The scope that the parent key lacks. -/
def Creation.lacking? (c : Creation) : Option Scope :=
  c.scopes.find? fun scope => !c.apiKey.hasScope scope

def createSessionToken (c : Creation) : TokenOp TokenReply :=
  match c.lacking? with
  | some scope =>
      return .raised (.valueError s!"Cannot grant scope '{scopeValue scope}' - parent key lacks it")
  | none => do
      let tokenHash := hashApiKey c.rawToken
      let before ← Program.perform .clock
      let token : SessionToken := {
        tokenHash
        tenantId := c.apiKey.tenantId
        parentKeyId := c.apiKey.id
        scopes := c.scopes
        expiresAt := before.now + c.ttl * 1000
        createdAt := before.now
        tokenType := c.tokenType
        singleUse := c.singleUse
        consumedAt := none }
      let tokenKey := redisSessionToken tokenHash
      let _ ← Program.perform (.hset tokenKey token)
      let _ ← Program.perform (.expire tokenKey c.ttl)
      return .created token

/-- The checks on the token that was read. -/
def checkToken (token : SessionToken) : TokenOp TokenReply := do
  let before ← Program.perform .clock
  if token.isExpired before.now then return .rejected
  else if token.singleUse && token.consumedAt.isSome then return .rejected
  else return .accepted token

/-- What `validate_session_token` makes of the hash that it has found. -/
def checkKey : Option TokenKey → TokenOp TokenReply
  | none => return .rejected
  | some k =>
      match SessionToken.fromDict k.fields with
      | .error error => return .raised error
      | .ok token => checkToken token

def validateSessionToken (rawToken : String) : TokenOp TokenReply :=
  if !rawToken.startsWith TOKEN_PREFIX then return .rejected
  else do
    let key := redisSessionToken (hashApiKey rawToken)
    let before ← Program.perform (.hgetall key)
    checkKey (before.find key)

/-- What `consume_session_token` does with the answer of the validation. -/
def consumeAccepted (rawToken : String) : TokenReply → TokenOp TokenReply
  | .accepted token =>
      if !token.singleUse then return .accepted token
      else do
        let key := redisSessionToken (hashApiKey rawToken)
        let before ← Program.perform .clock
        let consumedAt := before.now
        let before ← Program.perform (.hsetnx key consumedAt)
        if before.has key "consumed_at" then return .rejected
        else return .accepted { token with consumedAt := some consumedAt }
  | reply => return reply

def consumeSessionToken (rawToken : String) : TokenOp TokenReply := do
  let reply ← validateSessionToken hashApiKey rawToken
  consumeAccepted hashApiKey rawToken reply

def revokeSessionToken (rawToken : String) : TokenOp TokenReply :=
  if !rawToken.startsWith TOKEN_PREFIX then return .revoked false
  else do
    let key := redisSessionToken (hashApiKey rawToken)
    let before ← Program.perform (.delete key)
    return .revoked (before.find key).isSome

inductive TokenCall
  | create (creation : Creation)
  | validate (rawToken : String)
  | consume (rawToken : String)
  | revoke (rawToken : String)

def TokenCall.code : TokenCall → TokenOp TokenReply
  | .create creation => createSessionToken hashApiKey creation
  | .validate rawToken => validateSessionToken hashApiKey rawToken
  | .consume rawToken => consumeSessionToken hashApiKey rawToken
  | .revoke rawToken => revokeSessionToken hashApiKey rawToken

end Calls

abbrev TokenShared := Shared TokenCall TokenEffect TokenStore TokenReply

abbrev TokenPool := Pool TokenCall TokenEffect TokenStore TokenReply

end Dalston.Gateway.Tokens
