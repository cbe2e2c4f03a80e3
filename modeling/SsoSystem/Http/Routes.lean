/-
SsoSystem.Http.Routes — the route table (src/main.c), the Raft endpoints
(src/raft_cluster.c) and `mhd_access_handler` (src/server_mhd.c), which finds
the handler of a request and authenticates it where the route says so.

`routes` has the entries of the source in their order; the first one of the
method whose pattern matches counts. Handlers that only read and print are
`page`. In Raft mode the commands a request hands to the library are kept; the
library applies them later, on its own thread, so no request does. The writes
a handler makes itself are made at once here, also in Raft mode.
-/
import SsoSystem.Http.Checks
import SsoSystem.Http.Route
import SsoSystem.Raft.Codec

namespace SsoSystem

open CMem Handling

/-! ## §1 Raft -/

variable (env : Moment) (req : Request) (commands : Json → List Bytes)

/-- The common part of the two message handlers: outside Raft mode, or without a body that
can be read, they return `SSO_ERR_INVALID_PARAM`. -/
def raftMessage : Handling :=
  .call (.raftReceive []) fun inRaftMode =>
    if !inRaftMode || !req.hasBody then failWith .invalidParam
    else
      match req.json with
      | none => failWith .invalidParam
      | some doc =>
        .call (.raftReceive (commands doc)) fun _ =>
          if env.raft.err ≠ 0 then failWith .general else .ret .page

/-- `handle_raft_request_vote`. -/
def handleRaftRequestVote : Handling := raftMessage env req fun _ => []

/-- The commands in the entries of a message. -/
def entryCommands (doc : Json) : List Bytes :=
    (Raft.AppendEntries.ofDocument doc).entries.filterMap (·.data)

/-- `handle_raft_append_entries`. -/
def handleRaftAppendEntries : Handling := raftMessage env req entryCommands

variable (P : Platform) (cfg : ServerConfig) (env : Moment) (req : HttpRequest)

/-- `handle_raft_execute`: the body is the command. Outside Raft mode the backend's own
context is taken for a cluster. -/
def handleRaftExecute : Handling :=
  if !req.hasBody then fail 400 "Missing payload"
  else
    .call (.raftReceive [req.bodyText]) fun inRaftMode =>
      if !inRaftMode then .stuck
      else if env.raft.err = 0 || env.raft.forwarded then ok "\x7b\"success\":true\x7d"
      else fail 500 "Raft propose failed"

/-- `handle_raft_status`, with the same cast. -/
def handleRaftStatus : Handling :=
  .call (.raftReceive []) fun inRaftMode => if inRaftMode then .ret .page else .stuck

/-! ## §2 The handlers -/

/-- The handlers of the route table. -/
inductive ApiHandler where
  /-- Reads and prints: metrics, health, status, documents, lists and single records. -/
  | page
  | login | sendSms | loginBySms | register
  | mfaEnable | mfaVerify
  | webauthnRegisterChallenge | webauthnRegister | webauthnLoginChallenge | webauthnLogin
  | verify | refresh | sessionCheck
  | logout | logoutAll | changePassword | rotateKeys
  | checkPermission | checkFunctional | checkApi | checkData | checkRbac | checkLocation | checkLbac
  | checkAbac
  | createUser | updateUser | deleteUser
  | createRole | updateRole | deleteRole | assignRole | unassignRole
  | createPolicy | updatePolicy | deletePolicy | assignPolicy | unassignPolicy
  | createGroup | updateGroup | deleteGroup | addGroupMember | removeGroupMember
  | createClient | updateClient | deleteClient
  | oauthAuthorize | oauthToken | oauthIntrospect | oauthRevoke | oauthEndSession
  | raftRequestVote | raftAppendEntries | raftExecute | raftStatus
  deriving DecidableEq, Repr

/-- A handler that looks at `req->userdata`, which only a route with `require_auth` sets. -/
def withAuth (auth : Option AuthUser) (k : AuthUser → Handling) : Handling := auth.elim .stuck k

/-- A handler on a request; `auth` is `req->userdata`. -/
def ApiHandler.handle
    (auth : Option AuthUser) : ApiHandler → Handling
  | page => .ret .page
  | login => handleLogin P cfg env req.toRequest
  | sendSms => handleSendSms env req.toRequest
  | loginBySms => handleLoginBySms P env req.toRequest
  | register => handleRegister env req.toRequest
  | mfaEnable => withAuth auth (handleMfaEnable P env req.toRequest)
  | mfaVerify => handleMfaVerify P env req.toRequest
  | webauthnRegisterChallenge =>
    withAuth auth (handleWebauthnRegisterChallenge P cfg env.challengeRand)
  | webauthnRegister => withAuth auth (handleWebauthnRegister P cfg req.toRequest)
  | webauthnLoginChallenge => handleWebauthnLoginChallenge P cfg env.challengeRand req.toRequest
  | webauthnLogin => handleWebauthnLogin P cfg env req.toRequest
  | verify => accepting fun ctx => handleVerify P.crypto P.dpop ctx env.now env.draws req.toRequest
  | refresh => accepting fun ctx => handleRefresh P.crypto ctx env.now env.draws req.toRequest
  | sessionCheck => accepting fun ctx => handleSessionCheck P.crypto ctx env.now req.toRequest
  | logout => withAuth auth handleLogout
  | logoutAll => withAuth auth handleLogoutAll
  | changePassword => withAuth auth (handleChangePassword env req.toRequest)
  | rotateKeys => handleRotateKeys P req
  | checkPermission => withAuth auth (handleCheckPermission P env req)
  | checkFunctional => withAuth auth (handleCheckFunctional P env req)
  | checkApi => withAuth auth (handleCheckApi P env req)
  | checkData => withAuth auth (handleCheckData P env req)
  | checkRbac => withAuth auth (handleCheckRbac P env req)
  | checkLocation => withAuth auth (handleCheckLocation P env req)
  | checkLbac => withAuth auth (handleCheckLbac P env req)
  | checkAbac => withAuth auth (handleCheckAbac P env req)
  | createUser => handleCreateUser env req
  | updateUser => handleUpdateUser req
  | deleteUser => handleDeleteUser req
  | createRole => handleCreateRole req
  | updateRole => handleUpdateRole req
  | deleteRole => handleDeleteRole req
  | assignRole => handleAssignRole req
  | unassignRole => handleUnassignRole req
  | createPolicy => handleCreatePolicy req
  | updatePolicy => handleUpdatePolicy req
  | deletePolicy => handleDeletePolicy req
  | assignPolicy => handleAssignPolicy req
  | unassignPolicy => handleUnassignPolicy req
  | createGroup => handleCreateGroup req
  | updateGroup => handleUpdateGroup req
  | deleteGroup => handleDeleteGroup req
  | addGroupMember => handleAddGroupMember req
  | removeGroupMember => handleRemoveGroupMember req
  | createClient => handleCreateClient env req
  | updateClient => handleUpdateClient env req
  | deleteClient => handleDeleteClient req
  | oauthAuthorize => withAuth auth (handleOauthAuthorize cfg env req)
  | oauthToken => handleOauthToken P cfg env req.toRequest
  | oauthIntrospect => accepting fun ctx => handleOauthIntrospect P.crypto ctx env.now req.toRequest
  | oauthRevoke => handleOauthRevoke P env req.toRequest
  | oauthEndSession => handleOauthEndSession P cfg env req
  | raftRequestVote => handleRaftRequestVote env req.toRequest
  | raftAppendEntries => handleRaftAppendEntries env req.toRequest
  | raftExecute => handleRaftExecute env req
  | raftStatus => handleRaftStatus

/-! ## §3 The table -/

/-- `route_t`. -/
structure ApiRoute where
  pattern : String
  method : HttpMethod
  handler : ApiHandler
  requireAuth : Bool
  deriving DecidableEq

/-- The table of main.c. -/
def routes : List ApiRoute := [⟨"/metrics", .get, .page, false⟩,
  ⟨"/api/v1/health", .get, .page, false⟩, ⟨"/api/v1/admin/status", .get, .page, true⟩,
  ⟨"/api/v1/docs", .get, .page, false⟩, ⟨"/api/v1/docs/openapi.yaml", .get, .page, false⟩,
  ⟨"/api/v1/auth/login", .post, .login, false⟩, ⟨"/api/v1/auth/send_sms", .post, .sendSms, false⟩,
  ⟨"/api/v1/auth/login_by_sms", .post, .loginBySms, false⟩,
  ⟨"/api/v1/auth/register", .post, .register, false⟩,
  ⟨"/api/v1/auth/mfa/setup", .post, .page, true⟩,
  ⟨"/api/v1/auth/mfa/enable", .post, .mfaEnable, true⟩,
  ⟨"/api/v1/auth/mfa/verify", .post, .mfaVerify, false⟩,
  ⟨"/api/v1/auth/webauthn/register/challenge", .post, .webauthnRegisterChallenge, true⟩,
  ⟨"/api/v1/auth/webauthn/register", .post, .webauthnRegister, true⟩,
  ⟨"/api/v1/auth/webauthn/login/challenge", .post, .webauthnLoginChallenge, false⟩,
  ⟨"/api/v1/auth/webauthn/login", .post, .webauthnLogin, false⟩,
  ⟨"/api/v1/auth/verify", .get, .verify, false⟩, ⟨"/api/v1/auth/verify", .post, .verify, false⟩,
  ⟨"/api/v1/auth/refresh", .post, .refresh, false⟩, ⟨"/api/v1/auth/logout", .post, .logout, true⟩,
  ⟨"/api/v1/auth/logout_all", .post, .logoutAll, true⟩,
  ⟨"/api/v1/auth/password", .post, .changePassword, true⟩, ⟨"/api/v1/auth/me", .get, .page, true⟩,
  ⟨"/api/v1/auth/certs", .get, .page, false⟩, ⟨"/api/v1/auth/userinfo", .get, .page, true⟩,
  ⟨"/api/v1/auth/jwks", .get, .page, false⟩, ⟨"/api/v1/auth/rotate-keys", .post, .rotateKeys, true⟩,
  ⟨"/api/v1/auth/session-check", .get, .sessionCheck, false⟩,
  ⟨"/api/v1/audit/logs", .get, .page, true⟩, ⟨"/api/v1/check", .post, .checkPermission, true⟩,
  ⟨"/api/v1/check/functional", .post, .checkFunctional, true⟩,
  ⟨"/api/v1/check/api", .post, .checkApi, true⟩, ⟨"/api/v1/check/data", .post, .checkData, true⟩,
  ⟨"/api/v1/check/rbac", .post, .checkRbac, true⟩,
  ⟨"/api/v1/check/location", .post, .checkLocation, true⟩,
  ⟨"/api/v1/check/lbac", .post, .checkLbac, true⟩, ⟨"/api/v1/check/abac", .post, .checkAbac, true⟩,
  ⟨"/api/v1/users", .get, .page, true⟩, ⟨"/api/v1/users", .post, .createUser, true⟩,
  ⟨"/api/v1/users/:id", .get, .page, true⟩, ⟨"/api/v1/users/:id", .put, .updateUser, true⟩,
  ⟨"/api/v1/users/:id", .delete, .deleteUser, true⟩, ⟨"/api/v1/roles", .get, .page, true⟩,
  ⟨"/api/v1/roles", .post, .createRole, true⟩, ⟨"/api/v1/roles/:id", .put, .updateRole, true⟩,
  ⟨"/api/v1/roles/:id", .delete, .deleteRole, true⟩,
  ⟨"/api/v1/roles/*/assign", .post, .assignRole, true⟩,
  ⟨"/api/v1/roles/*/unassign", .post, .unassignRole, true⟩, ⟨"/api/v1/policies", .get, .page, true⟩,
  ⟨"/api/v1/policies", .post, .createPolicy, true⟩,
  ⟨"/api/v1/policies/:id", .put, .updatePolicy, true⟩,
  ⟨"/api/v1/policies/:id", .delete, .deletePolicy, true⟩,
  ⟨"/api/v1/policies/*/assign", .post, .assignPolicy, true⟩,
  ⟨"/api/v1/policies/*/unassign", .post, .unassignPolicy, true⟩,
  ⟨"/api/v1/users/*/policies", .get, .page, true⟩,
  ⟨"/api/v1/policies/*/targets", .get, .page, true⟩, ⟨"/api/v1/groups", .get, .page, true⟩,
  ⟨"/api/v1/groups", .post, .createGroup, true⟩, ⟨"/api/v1/groups/:id", .put, .updateGroup, true⟩,
  ⟨"/api/v1/groups/:id", .delete, .deleteGroup, true⟩,
  ⟨"/api/v1/groups/*/members", .post, .addGroupMember, true⟩,
  ⟨"/api/v1/groups/*/members/*", .delete, .removeGroupMember, true⟩,
  ⟨"/api/v1/clients", .get, .page, true⟩, ⟨"/api/v1/clients", .post, .createClient, true⟩,
  ⟨"/api/v1/clients/:id", .put, .updateClient, true⟩,
  ⟨"/api/v1/clients/:id", .delete, .deleteClient, true⟩,
  ⟨"/.well-known/openid-configuration", .get, .page, false⟩,
  ⟨"/api/v1/oauth/authorize", .get, .oauthAuthorize, true⟩,
  ⟨"/api/v1/oauth/token", .post, .oauthToken, false⟩,
  ⟨"/api/v1/oauth/introspect", .post, .oauthIntrospect, true⟩,
  ⟨"/api/v1/oauth/revoke", .post, .oauthRevoke, true⟩,
  ⟨"/api/v1/oauth/end-session", .get, .oauthEndSession, false⟩,
  ⟨"/raft/request_vote", .post, .raftRequestVote, false⟩,
  ⟨"/raft/append_entries", .post, .raftAppendEntries, false⟩,
  ⟨"/api/v1/raft/execute", .post, .raftExecute, false⟩,
  ⟨"/api/v1/raft/status", .get, .raftStatus, false⟩]

/-- The route of a request. -/
def routeOf : Option ApiRoute :=
  routes.find? fun r => r.method == req.method && matchRoute (lit r.pattern) (cstr req.path)

/-- A matched route on a request. -/
def ApiRoute.serve (r : ApiRoute) : Handling :=
  if r.requireAuth then
    Handling.requireAuth P env req fun auth => r.handler.handle P cfg env req (some auth)
  else r.handler.handle P cfg env req none

/-- `mhd_access_handler`. -/
def mhdAccessHandler : Handling :=
  if req.method = .options then .ret (.done [])
  else
    match routeOf req with
    | none => fail 404 "Not found"
    | some r => r.serve P cfg env req

/-! ## §4 Requests one after the other -/

/-- A request, and what it meets. -/
structure HttpEvent where
  env : Moment
  req : HttpRequest

/-- One request; `none` when it is not answered. -/
def Server.serve (s : Server) (e : HttpEvent) : Option (Answer × Server) :=
  (mhdAccessHandler P cfg e.env e.req).exec Server.perform s

/-- The state after a request. -/
def Server.step (s : Server) (e : HttpEvent) : Option Server :=
  (s.serve P cfg e).map Prod.snd

end SsoSystem
