/-
SsoSystem.Http.Acceptance — the five places of the server that decide whether
a token is good: `authenticate_request` (src/handlers_common.c),
`handle_verify`, `handle_refresh`, `handle_session_check`
(src/handlers_auth.c) and `handle_oauth_introspect` (src/oauth.c), together
with the calls that take a token back, `handle_logout` and
`handle_logout_all`.

Each of them repeats its own selection of the same checks, in its own order;
the definitions keep selection and order. The DPoP proof check is the
parameter `dpopVerifyProof`. A handler reads the clock several times; here one request
has one time. Response buffers, log lines and failed allocations are left
out. A result is `none` when the payload scan of `token_verify` has none.
-/
import SsoSystem.Storage.Memory
import SsoSystem.Token.Rotation

namespace SsoSystem

open CMem

/-! ## §1 Context and requests -/

/-- The parts of `sso_context_t` the acceptance paths read: the token manager, the
entity store and the revoked jtis the store keeps with their expiry. -/
structure AuthContext where
  tokens : TokenManager
  store : Store
  revokedJtis : List (Bytes × Int64)

/-- `http_request_t`; `json` is the parsed body. -/
structure Request where
  authToken : Bytes
  hasBody : Bool
  json : Option Json
  dpopProof : Bytes
  methodStr : Bytes
  host : Bytes
  path : Bytes

/-- `dpop_verify_proof` on proof, method, URL and expected thumbprint; gives the thumbprint
of the proof's key. -/
abbrev DpopVerifier := Bytes → Bytes → Bytes → Bytes → Except SsoError Bytes

/-- The clock and the random bytes of the tokens a request may issue. -/
structure Draws where
  rotation : IssueEnv
  access : IssueEnv
  refresh : IssueEnv

/-- `req_json_str_value`. -/
def reqJsonStrValue (req : Request) (key : Bytes) : Option Bytes :=
  Json.getStr (Json.objGet req.json key)

/-- `sso_strerror`. -/
def ssoStrerror : SsoError → Bytes
  | .ok => lit "Success"
  | .general => lit "General error"
  | .notFound => lit "Resource not found"
  | .alreadyExists => lit "Resource already exists"
  | .invalidParam => lit "Invalid parameter"
  | .noPermission => lit "Permission denied"
  | .authFailed => lit "Authentication failed"
  | .tokenExpired => lit "Token expired"
  | .tokenInvalid => lit "Token invalid"
  | .storage => lit "Storage error"
  | .strategyConflict => lit "Strategy already registered"
  | .strategyNotFound => lit "Strategy not found"
  | .ruleInvalid => lit "Invalid policy rule"
  | .outOfMemory => lit "Out of memory"
  | .notImplemented => lit "Not implemented"
  | .rateLimit => lit "Rate limit exceeded"
  | .socket => lit "Socket creation failed"
  | .bind => lit "Socket bind failed"
  | .listen => lit "Socket listen failed"
  | .init => lit "Initialisation failed"
  | .curl => lit "CURL operation failed"
  | .passwordExpired => lit "Password expired"
  | _ => lit "Unknown error"

/-! ## §2 Revocation and nonces -/

/-- `mem_jti_revoke`. -/
def memJtiRevoke (rows : List (Bytes × Int64)) (jti : Bytes) (expiresAt : Int64) :
    List (Bytes × Int64) :=
  if rows.any fun r => strEq r.1 jti then
    rows.replaceF fun r => if strEq r.1 jti then some (r.1, expiresAt) else none
  else rows ++ [(strlcpy 64 jti, expiresAt)]

/-- `mem_jti_is_revoked`: a row counts until it expires. -/
def memJtiIsRevoked (rows : List (Bytes × Int64)) (now : Int64) (jti : Bytes) : Bool :=
  rows.any fun r => strEq r.1 jti && decide (r.2 > now)

namespace AuthContext

variable (ctx : AuthContext) (now : Int64) (jti : Bytes)

/-- `token_revoke`: the store first, then the manager's own list. -/
def tokenRevoke (expiresAt : Int64) : AuthContext :=
  { ctx with
    revokedJtis := memJtiRevoke ctx.revokedJtis jti expiresAt
    tokens := ctx.tokens.revoke jti }

/-- `token_is_revoked`: the manager's own list first, then the store. -/
def tokenIsRevoked : Bool :=
  ctx.tokens.isRevoked jti || memJtiIsRevoked ctx.revokedJtis now jti

/-- `user_get_by_id`. -/
def userGetById (id : UInt64) : Option User := ctx.store.userGetById id.toNat

end AuthContext

/-! ## §3 The five paths -/

variable (c : Crypto) (dpop : DpopVerifier) (ctx : AuthContext) (now : Int64) (draws : Draws)
    (req : Request)

/-- The URL a proof must be for. -/
def fullUrl : Bytes :=
  strlcpy 2048 (lit "http://" ++ (if cstr req.host = [] then lit "localhost" else cstr req.host) ++
    cstr req.path)

variable (env : IssueEnv) (user : User) (tok : Token)

/-- The DPoP check of `authenticate_request`; it expects the proof for the token text and
compares the thumbprint itself. -/
def authenticateDpop : Bool :=
  if tok.jkt = [] then true
  else if cstr req.dpopProof = [] then false
  else
    match dpop req.dpopProof req.methodStr (fullUrl req) req.authToken with
    | .ok derived => strEq derived tok.jkt
    | .error _ => false

/-- `authenticate_request`. -/
def authenticateRequest : Option (Except SsoError (User × Token)) :=
  if cstr req.authToken = [] then some (.error .authFailed)
  else
    (tokenVerify c ctx.tokens now req.authToken).map fun
      | .error err => .error err
      | .ok tok =>
        if ctx.tokenIsRevoked now tok.jti then .error .tokenInvalid
        else if !authenticateDpop dpop req tok then .error .authFailed
        else
          match ctx.userGetById tok.userId with
          | none => .error .notFound
          | some user =>
            if tok.nonce < ctx.tokens.getNonce (UInt64.ofNat user.id) then .error .tokenInvalid
            else .ok (user, tok)

/-- What a handler answers. -/
inductive Reply where
  | error (status : Nat) (message : Bytes)
  | verified (user : User) (expiresAt : Int64) (rotated : Option Token)
  | refreshed (access refresh : Token)
  | session (user : User)
  | introspected (active : Bool) (claims : Option Token)

/-- The token `handle_verify` looks at: the body's, or else the header's. -/
def verifyTokenStr : Option Bytes :=
  match if req.hasBody then reqJsonStrValue req (lit "token") else none with
  | some t => some t
  | none => if cstr req.authToken = [] then none else some req.authToken

/-- The DPoP check of `handle_verify`; the error it answers with. -/
def verifyDpop : Option Bytes :=
  if tok.jkt = [] then none
  else if cstr req.dpopProof = [] then some (lit "DPoP Proof Required")
  else
    match dpop req.dpopProof req.methodStr (fullUrl req) tok.jkt with
    | .ok _ => none
    | .error _ => some (lit "Invalid DPoP Proof")

/-- The silent rotation of `handle_verify`: a new token past half of the lifetime. -/
def silentRotation : Option Token :=
  let ttl := tok.expiresAt - tok.issuedAt
  if ttl > 0 ∧ now ≥ tok.issuedAt ∧ now - tok.issuedAt > ttl / 2 then
    (tokenIssue c ctx.tokens
      { userId := UInt64.ofNat user.id
        roleIds := tok.roleIds
        groupIds := tok.groupIds
        scope := some tok.scope
        ttlMs := ttl
        dpopJkt := none } env).toOption
  else none

/-- `handle_verify`. -/
def handleVerify : Option Reply :=
  match verifyTokenStr req with
  | none => some (.error 401 (lit "Token required"))
  | some t =>
    (tokenVerify c ctx.tokens now t).map fun
      | .error err => .error 401 (ssoStrerror err)
      | .ok tok =>
        if ctx.tokenIsRevoked now tok.jti then .error 401 (lit "Token revoked")
        else
          match verifyDpop dpop req tok with
          | some message => .error 401 message
          | none =>
            match ctx.userGetById tok.userId with
            | none => .error 401 (lit "User not found")
            | some user =>
              .verified user tok.expiresAt (silentRotation c ctx now draws.rotation user tok)

/-- A token pair of `handle_refresh`: the roles and groups of the old token. -/
def refreshArgs (old : Token) (ttlMs : Int64) : IssueArgs where
  userId := UInt64.ofNat user.id
  roleIds := old.roleIds
  groupIds := old.groupIds
  scope := none
  ttlMs := ttlMs
  dpopJkt := none

/-- `handle_refresh`. -/
def handleRefresh : Option Reply :=
  if !req.hasBody then some (.error 400 (lit "Request body required"))
  else
    match reqJsonStrValue req (lit "refresh_token") with
    | none => some (.error 400 (lit "refresh_token required"))
    | some t =>
      (tokenVerify c ctx.tokens now t).map fun
        | .error err =>
          .error 401
            (if err = .tokenExpired then lit "Refresh token expired" else lit
              "Invalid refresh token")
        | .ok old =>
          if ctx.tokenIsRevoked now old.jti then .error 401 (lit "Refresh token revoked")
          else
            match ctx.userGetById old.userId with
            | none => .error 401 (lit "User not found")
            | some user =>
              match tokenIssue c ctx.tokens (refreshArgs user old 900000) draws.access,
                  tokenIssue c ctx.tokens (refreshArgs user old 604800000) draws.refresh with
              | .ok access, .ok refresh => .refreshed access refresh
              | _, _ => .error 500 (lit "Failed to issue tokens")

/-- `handle_session_check`. -/
def handleSessionCheck : Option Reply :=
  if cstr req.authToken = [] then some (.error 401 (lit "No token"))
  else
    (tokenVerify c ctx.tokens now req.authToken).map fun
      | .error err => .error 401 (ssoStrerror err)
      | .ok tok =>
        if ctx.tokenIsRevoked now tok.jti then .error 401 (lit "Token revoked")
        else
          match ctx.userGetById tok.userId with
          | none => .error 401 (lit "User not found or inactive")
          | some user =>
            if user.status = .active then .session user
            else .error 401 (lit "User not found or inactive")

/-- `handle_oauth_introspect`. -/
def handleOauthIntrospect : Option Reply :=
  if !req.hasBody then some (.error 400 (lit "invalid_request"))
  else
    match reqJsonStrValue req (lit "token") with
    | none => some (.error 400 (lit "invalid_request"))
    | some t =>
      (tokenVerify c ctx.tokens now t).map fun
        | .error _ => .introspected false none
        | .ok tok => .introspected (!ctx.tokenIsRevoked now tok.jti) (some tok)

/-! ## §4 Decisions -/

inductive Endpoint where
  | authenticateRequest | handleVerify | handleSessionCheck | handleRefresh | handleOauthIntrospect
  deriving DecidableEq, Repr

/-- Whether an answer says that the token is good. -/
def Reply.accepting : Reply → Bool
  | .error _ _ => false
  | .verified _ _ _ => true
  | .refreshed _ _ => true
  | .session _ => true
  | .introspected active _ => active

/-- Whether the endpoint takes the token of the request for good. -/
def Endpoint.accepts : Endpoint → Option Bool
  | .authenticateRequest => (SsoSystem.authenticateRequest c dpop ctx now req).map Except.isOk
  | .handleVerify => (SsoSystem.handleVerify c dpop ctx now draws req).map Reply.accepting
  | .handleSessionCheck => (SsoSystem.handleSessionCheck c ctx now req).map Reply.accepting
  | .handleRefresh => (SsoSystem.handleRefresh c ctx now draws req).map Reply.accepting
  | .handleOauthIntrospect => (SsoSystem.handleOauthIntrospect c ctx now req).map Reply.accepting

/-- The request hands the token text `t` to the endpoint. -/
def Endpoint.Presents (t : Bytes) (req : Request) : Endpoint → Prop
  | .authenticateRequest => req.authToken = t
  | .handleVerify => verifyTokenStr req = some t
  | .handleSessionCheck => req.authToken = t
  | .handleRefresh => req.hasBody = true ∧ reqJsonStrValue req (lit "refresh_token") = some t
  | .handleOauthIntrospect => req.hasBody = true ∧ reqJsonStrValue req (lit "token") = some t

/-- The endpoint's DPoP check, where it makes one, has no objection to the decoded token. -/
def Endpoint.DpopPasses : Endpoint → Prop
  | .authenticateRequest => authenticateDpop dpop req tok = true
  | .handleVerify => verifyDpop dpop req tok = none
  | _ => True

/-! ## §5 Runs -/

/-- A call that changes what is accepted, or issues a token. -/
inductive AuthEvent where
  | issue (args : IssueArgs) (env : IssueEnv)
  | rotate (secret : Bytes)
  | logout (jti : Bytes) (expiresAt : Int64)
  | logoutAll (userId : UInt64)
  | userCreate (user : User)
  | userUpdate (user : User)
  | userDelete (id : Nat)

/-- An issued token, and whether its user logged out everywhere since. -/
structure Login where
  tok : Token
  mgr : TokenManager
  args : IssueArgs
  env : IssueEnv
  loggedOut : Bool

/-- The context, with the tokens issued so far. -/
structure AuthRun where
  ctx : AuthContext
  logins : List Login

/-- The store after a call on it; a call that fails leaves it. -/
def AuthRun.withStore (r : AuthRun) (res : Except SsoError Store) : AuthRun :=
  match res with
  | .ok store => { r with ctx.store := store }
  | .error _ => r

def AuthRun.step (c : Crypto) (r : AuthRun) : AuthEvent → Option AuthRun
  | .issue args env =>
    match tokenIssue c r.ctx.tokens args env with
    | .ok tok => some { r with logins := ⟨tok, r.ctx.tokens, args, env, false⟩ :: r.logins }
    | .error _ => some r
  | .rotate secret =>
    match r.ctx.tokens.rotateKey secret with
    | .ok mgr => some { r with ctx.tokens := mgr }
    | .error _ => some r
  | .logout jti expiresAt => some { r with ctx := r.ctx.tokenRevoke jti expiresAt }
  | .logoutAll userId =>
    some
      { ctx := { r.ctx with tokens := r.ctx.tokens.bumpNonce userId }
        logins := r.logins.map fun l =>
          if l.tok.userId = userId then { l with loggedOut := true } else l }
  | .userCreate user => some (r.withStore (r.ctx.store.userCreate user))
  | .userUpdate user => some (r.withStore (r.ctx.store.userUpdate user))
  | .userDelete id => some (r.withStore (r.ctx.store.userDelete id))

/-- A server whose token manager has just been set up. -/
def AuthRun.start (m : TokenManager) : AuthRun where
  ctx := { tokens := m, store := memOpen, revokedJtis := [] }
  logins := []

end SsoSystem
