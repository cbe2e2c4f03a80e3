/-
SsoSystem.Http.Server — what the request handlers work on: the context with
its tables, the calls a handler makes on it, requests and answers.

A handler is a `Prog` over `Call`: each call is one function of the storage
backend, of a manager over it or of the token manager. The text of a body is
given twice, as sent and as `json_int_value` finds it after the in-situ parse
of `req_json_str_value`, which ends the text at the first string it has read.

Outside code is `Platform`; what a request takes from the clock, the random
generator, the rate limiter, the risk score and the SMS gateway is `Moment`.
-/
import SsoSystem.Http.Acceptance
import SsoSystem.Lib.Prog
import SsoSystem.Permission.Check
import SsoSystem.Storage.Grants

namespace SsoSystem

open CMem

/-! ## §1 State -/

/-- `sso_context_t`. In Raft mode `raft` holds the commands that were handed to the Raft
library, latest first. -/
structure Server where
  sys : System
  tokens : TokenManager
  revokedJtis : List (Bytes × Int64)
  grants : Grants
  raft : Option (List Bytes)

/-- The part the acceptance paths read. -/
def Server.auth (s : Server) : AuthContext where
  tokens := s.tokens
  store := s.sys.store
  revokedJtis := s.revokedJtis

/-! ## §2 Calls -/

/-- The id a create function is about to hand out. -/
def Mutation.newId (s : Store) : Mutation → Nat
  | .userCreate _ => s.nextUid
  | .roleCreate _ _ => s.nextRid
  | .groupCreate _ _ => s.nextGid
  | .policyCreate _ _ _ _ _ => s.nextPid
  | _ => 0

/-- One call of a handler. -/
inductive Call where
  | authContext
  | userGetById (id : Nat)
  | userGetByName (name : Bytes)
  | userGetByPhone (phone : Bytes)
  | getUserRoles (uid : Nat)
  | getUserGroups (uid : Nat)
  | roleGetById (id : Nat)
  | roleGetByName (name : Bytes)
  | groupGetById (id : Nat)
  | policyGetById (id : Nat)
  | manage (m : Mutation)
  | oauthCodeCreate (ac : AuthCode)
  | oauthCodeGet (code : Bytes)
  | oauthCodeMarkUsed (code : Bytes)
  | oauthCodeCleanup (now : Int64)
  | oauthClientGet (clientId : Bytes)
  | oauthClientList
  | oauthClientCreate (c : OauthClient)
  | oauthClientUpdate (c : OauthClient)
  | oauthClientDelete (clientId : Bytes)
  | refreshTokenCreate (rt : RefreshToken)
  | refreshTokenGet (hash : Bytes)
  | refreshTokenRevoke (hash : Bytes)
  | refreshTokenRevokeFamily (userId : Nat) (clientId : Bytes)
  | saveSmsCode (phone code : Bytes) (expiresAt : Int64)
  | getSmsCode (now : Int64) (phone : Bytes)
  | deleteSmsCode (phone : Bytes)
  | tokenRevoke (jti : Bytes) (expiresAt : Int64)
  | tokenBumpNonce (uid : UInt64)
  | tokenRegisterSession (uid : UInt64) (jti : Bytes)
  | tokenRotateKey (secret : Bytes)
  | tokenRotateKeyRs256 (keys : Option (Nat × Nat))
  | storeWrite (w : StoreWrite)
  | jtiRevoke (jti : Bytes) (expiresAt : Int64)
  | raftReceive (commands : List Bytes)
  | permCheck (V : Vendor) (h : Heap) (now : UInt64) (uid : Nat) (req : CheckRequest)
  | evaluate (V : Vendor) (h : Heap) (now : UInt64) (ctx : EvalContext)

/-- What a call returns. The first one stands for all a handler reads from the token
manager, the users and the revocations to judge or issue a token; a permission check may
not come back. -/
@[reducible] def Call.Result : Call → Type
  | .authContext => AuthContext
  | .userGetById _ | .userGetByName _ | .userGetByPhone _ => Option User
  | .getUserRoles _ | .getUserGroups _ => List Nat
  | .roleGetById _ | .roleGetByName _ => Option Role
  | .groupGetById _ => Option Group
  | .policyGetById _ => Option Policy
  | .manage _ => Except SsoError Nat
  | .oauthCodeGet _ => Option AuthCode
  | .oauthClientGet _ => Option OauthClient
  | .oauthClientList => List OauthClient
  | .oauthClientCreate _ | .oauthClientUpdate _ | .oauthClientDelete _ => SsoError
  | .refreshTokenGet _ => Option RefreshToken
  | .getSmsCode _ _ => Except SsoError Bytes
  | .tokenRotateKey _ | .tokenRotateKeyRs256 _ | .storeWrite _ => SsoError
  | .raftReceive _ => Bool
  | .permCheck _ _ _ _ _ => Option CheckResult
  | .evaluate _ _ _ _ => Option (Bool × EvalContext)
  | _ => Unit

namespace Server

/-- A write that may fail; a failed one leaves the state. -/
def written {α : Type} (res : Except SsoError α) (s : Server) (put : α → Server) :
    SsoError × Server :=
  match res with
  | .ok a => (.ok, put a)
  | .error err => (err, s)

/-- A call of a manager, with the id of the record it created. -/
def manage (s : Server) (m : Mutation) : Except SsoError Nat × Server :=
  match m.run s.sys with
  | (.ok, sys) => (.ok (m.newId s.sys.store), { s with sys })
  | (err, _) => (.error err, s)

/-- `token_register_session`: an evicted session is revoked with an expiry of 0. -/
def registerSession (s : Server) (uid : UInt64) (jti : Bytes) : Server :=
  let registered := s.tokens.registerSession uid jti
  { s with
    revokedJtis := registered.2.elim s.revokedJtis fun oldest => memJtiRevoke s.revokedJtis oldest 0
    tokens := registered.2.elim registered.1 registered.1.revoke }

/-- One call. -/
def perform : (call : Call) → Server → call.Result × Server
  | .authContext, s => (s.auth, s)
  | .userGetById id, s => (s.sys.store.userGetById id, s)
  | .userGetByName name, s => (s.sys.store.userGetByName name, s)
  | .userGetByPhone phone, s => (s.sys.store.userGetByPhone phone, s)
  | .getUserRoles uid, s => (s.sys.store.getUserRoles uid 16, s)
  | .getUserGroups uid, s => (s.sys.store.getUserGroups uid 16, s)
  | .roleGetById id, s => (s.sys.store.roleGetById id, s)
  | .roleGetByName name, s => (s.sys.store.roleGetByName name, s)
  | .groupGetById id, s => (s.sys.store.groupGetById id, s)
  | .policyGetById id, s => (s.sys.store.policyGetById id, s)
  | .manage m, s => s.manage m
  | .oauthCodeCreate ac, s => ((), { s with grants := s.grants.oauthCodeCreate ac })
  | .oauthCodeGet code, s => (s.grants.oauthCodeGet code, s)
  | .oauthCodeMarkUsed code, s => ((), { s with grants := s.grants.oauthCodeMarkUsed code })
  | .oauthCodeCleanup now, s => ((), { s with grants := s.grants.oauthCodeCleanup now })
  | .oauthClientGet clientId, s => (s.grants.oauthClientGet clientId, s)
  | .oauthClientList, s => (s.grants.clients.take 64, s)
  | .oauthClientCreate c, s => written (s.grants.oauthClientCreate c) s fun grants =>
      { s with grants }
  | .oauthClientUpdate c, s => written (s.grants.oauthClientUpdate c) s fun grants =>
      { s with grants }
  | .oauthClientDelete clientId, s =>
    written (s.grants.oauthClientDelete clientId) s fun grants => { s with grants }
  | .refreshTokenCreate rt, s => ((), { s with grants := s.grants.refreshTokenCreate rt })
  | .refreshTokenGet hash, s => (s.grants.refreshTokenGet hash, s)
  | .refreshTokenRevoke hash, s => ((), { s with grants := s.grants.refreshTokenRevoke hash })
  | .refreshTokenRevokeFamily userId clientId, s =>
    ((), { s with grants := s.grants.refreshTokenRevokeFamily userId clientId })
  | .saveSmsCode phone code expiresAt, s =>
    ((), { s with grants := s.grants.saveSmsCode phone code expiresAt })
  | .getSmsCode now phone, s => (s.grants.getSmsCode now phone, s)
  | .deleteSmsCode phone, s => ((), { s with grants := s.grants.deleteSmsCode phone })
  | .tokenRevoke jti expiresAt, s =>
    ((), { s with
      revokedJtis := memJtiRevoke s.revokedJtis jti expiresAt
      tokens := s.tokens.revoke jti })
  | .tokenBumpNonce uid, s => ((), { s with tokens := s.tokens.bumpNonce uid })
  | .tokenRegisterSession uid jti, s => ((), s.registerSession uid jti)
  | .tokenRotateKey secret, s => written (s.tokens.rotateKey secret) s fun tokens =>
      { s with tokens }
  | .tokenRotateKeyRs256 keys, s =>
    ((s.tokens.rotateKeyRs256 keys).1, { s with tokens := (s.tokens.rotateKeyRs256 keys).2 })
  | .storeWrite w, s => written (w.apply s.sys.store) s fun store => { s with sys.store := store }
  | .jtiRevoke jti expiresAt, s =>
      ((), { s with revokedJtis := memJtiRevoke s.revokedJtis jti expiresAt })
  | .raftReceive commands, s =>
      (s.raft.isSome, { s with raft := s.raft.map (commands.reverse ++ ·) })
  | .permCheck V h now uid req, s =>
    match SsoSystem.permCheck V h s.sys now uid req with
    | some (result, sys) => (some result, { s with sys })
    | none => (none, s)
  | .evaluate V h now ctx, s =>
    match evaluateInternal V h s.sys.store s.sys.engine now ctx with
    | some (allowed, ctx', engine) => (some (allowed, ctx'), { s with sys.engine := engine })
    | none => (none, s)

end Server

/-! ## §3 Requests -/

/-- Outside code: cryptography, the vendored reader, and the checkers of DPoP proofs
(src/dpop.c; NULL stands for no expected thumbprint) and of WebAuthn data
(src/webauthn.c). -/
structure Platform where
  crypto : Crypto
  vendor : Vendor
  sha256 : Bytes → Bytes
  length_sha256 : ∀ msg, (sha256 msg).length = 32
  hmacSha1 : Bytes → Bytes → Option (Vector UInt8 20)
  pwhashVerify : Bytes → Bytes → Bool
  /-- `load_rsa_slot`: handles of the keys in a private and a public PEM text; without the
  second the public key is derived. -/
  loadRsaKeys : Bytes → Option Bytes → Option (Nat × Nat)
  /-- `dpop_verify_proof` (src/dpop.c), taken as it comes: proof, method, URL and the thumbprint
  that is expected, if any. -/
  dpopVerifyProof : Bytes → Bytes → Bytes → Option Bytes → Except SsoError Bytes
  /-- Credential id and public key of an attestation, client data, challenge and origin. -/
  webauthnRegisterVerify : Bytes → Bytes → Bytes → Bytes → Option (Bytes × Bytes)
  /-- `webauthn_login_verify` (src/webauthn.c), taken as it comes: authenticator data, client
  data, signature, challenge, origin and public key. -/
  webauthnLoginVerify : Bytes → Bytes → Bytes → Bytes → Bytes → Bytes → Bool

/-- The check of a proof against an expected thumbprint. -/
def Platform.dpop (P : Platform) : DpopVerifier :=
  fun proof method url jkt => P.dpopVerifyProof proof method url (some jkt)

/-- The settings of `sso_config_t` the handlers read. -/
structure ServerConfig where
  oauthClientId : Bytes
  oauthClientSecret : Bytes
  oauthRedirectUris : Bytes
  oauthAuthCodeTtlMs : Int64
  tokenTtlMs : Int64
  tokenSecret : Bytes
  passwordExpiryDays : Int64

/-- `http_method_t`. -/
inductive HttpMethod where
  | get | post | put | delete | patch | options
  deriving DecidableEq, Repr

/-- `http_request_t`; the text of the body as it came, and after the in-situ parse. -/
structure HttpRequest extends Request where
  method : HttpMethod
  queryParams : List Bytes
  bodyText : Bytes
  bodyParsed : Bytes

/-- What the Raft library does with a message: its return code, and the commands it applies. -/
structure RaftReaction where
  err : Int
  forwarded : Bool
  applied : List Bytes

/-- What a request meets outside, with the heap a permission check works on. -/
structure Moment where
  now : Int64
  draws : Draws
  storedAt : Int64
  codeRand : Vector UInt8 16
  challengeRand : Vector UInt8 32
  rateOk : Bool
  phoneRateOk : Bool
  riskScore : Int
  pwhash : Bytes
  smsRand : Nat
  smsSent : Bool
  unixTime : UInt64
  monotonicMs : UInt64
  raft : RaftReaction
  heap : Heap
  recordAddr : UserAddr

/-- `auth_context_t`. -/
abbrev AuthUser := User × Token

/-- What a handler answers. Pages, lists and records that are only read are `page`. -/
inductive Answer where
  | error (status : Nat) (message : Bytes)
  | done (body : Bytes)
  | created (id : Nat) (name : Bytes)
  | page
  | untouched
  | redirected (location : Bytes)
  | accepted (reply : Reply)
  | mfaRequired (mfaToken : Token)
  | loggedIn (user : User) (access refresh : Token)
  | smsLoggedIn (user : User) (token : Token)
  | webauthnLoggedIn (access refresh : Token) (dpopBound : Bool)
  | codeTokens (access : Token) (userId : Nat) (openid : Bool)
  | clientToken (access : Token)
  | refreshedTokens (access : Token)
  | registerChallenge (challenge sig : Bytes) (user : User)
  | loginChallenge (challenge sig credentialId : Bytes)
  | checked (allowed : Bool) (fields : Option (List Bytes))

/-- The tokens an answer hands out. -/
def Answer.tokens : Answer → List Token
  | .accepted (.verified _ _ rotated) => rotated.toList
  | .accepted (.refreshed access refresh) => [access, refresh]
  | .mfaRequired t => [t]
  | .loggedIn _ access refresh => [access, refresh]
  | .smsLoggedIn _ t => [t]
  | .webauthnLoggedIn access refresh _ => [access, refresh]
  | .codeTokens access _ _ => [access]
  | .clientToken access => [access]
  | .refreshedTokens access => [access]
  | _ => []

/-- A handler in progress. -/
abbrev Handling := Prog Call Call.Result Answer

namespace Handling

/-- `sso_response_error`, `json_error_response`. -/
def fail (status : Nat) (message : String) : Handling := .ret (.error status (lit message))

/-- `sso_response_ok` with a fixed text. -/
def ok (body : String) : Handling := .ret (.done (lit body))

/-- The authentication step of `mhd_access_handler`, in front of a handler that needs it. -/
def requireAuth (P : Platform) (env : Moment) (req : HttpRequest) (handler : AuthUser → Handling) :
    Handling :=
  .call .authContext fun ctx =>
    match authenticateRequest P.crypto P.dpop ctx env.now req.toRequest with
    | none => .stuck
    | some (.error err) =>
      fail 401 (if err = .tokenExpired then "Token expired" else "Authentication failed")
    | some (.ok auth) => handler auth

end Handling

/-! ## §4 A small server, to run the model on -/

/-- Stands in for the outside code: equal MACs, a hash that keeps the first 32 bytes,
passwords as they are, and no proof or assertion that is valid. -/
def samplePlatform : Platform where
  crypto :=
    { hmac := fun _ _ => List.replicate 32 1
      length_hmac := fun _ _ => List.length_replicate
      rsaSign := fun _ _ => none
      rsaVerify := fun _ _ _ => .tokenInvalid }
  vendor := Vendor.ofTable []
  sha256 msg := msg.take 32 ++ List.replicate (32 - msg.length) 0
  length_sha256 msg := by
    rw [List.length_append, List.length_take, List.length_replicate]
    omega
  hmacSha1 _ _ := none
  pwhashVerify := strEq
  loadRsaKeys _ _ := none
  dpopVerifyProof _ _ _ _ := .error .tokenInvalid
  webauthnRegisterVerify _ _ _ _ := none
  webauthnLoginVerify _ _ _ _ _ _ := false

def sampleConfig : ServerConfig where
  oauthClientId := lit "app"
  oauthClientSecret := lit "app-secret"
  oauthRedirectUris := lit "https://app/cb"
  oauthAuthCodeTtlMs := 0
  tokenTtlMs := 0
  tokenSecret := lit "secret"
  passwordExpiryDays := 0

/-- One key, and these users. -/
def sampleServer (users : List User) : Server where
  sys :=
    { store := { memOpen with users, nextUid := users.length + 1 }, engine := permEngineCreate }
  tokens :=
    { mode := .hs256
      slots := fun i => if i = ⟨0, Nat.two_pos⟩ then hsSlot 1 (lit "secret") else KeySlot.zero
      activeSlot := ⟨0, Nat.two_pos⟩
      rotationCounter := 1
      defaultTtlMs := 3600000
      nonces := []
      jtis := [] }
  revokedJtis := []
  grants := .open
  raft := none

/-- The `n`-th moment: a second after the one before, with draws of its own. -/
def sampleMoment (n : Nat) : Moment where
  now := Int64.ofNat (1000 * n)
  draws :=
    { rotation := ⟨Int64.ofNat (1000 * n), Vector.replicate 8 1,
      Vector.replicate 32 (UInt8.ofNat n)⟩
      access := ⟨Int64.ofNat (1000 * n), Vector.replicate 8 2, Vector.replicate 32 (UInt8.ofNat n)⟩
      refresh :=
        ⟨Int64.ofNat (1000 * n), Vector.replicate 8 3, Vector.replicate 32 (UInt8.ofNat n)⟩ }
  storedAt := Int64.ofNat (1000 * n)
  codeRand := Vector.replicate 16 (UInt8.ofNat n)
  challengeRand := Vector.replicate 32 (UInt8.ofNat n)
  rateOk := true
  phoneRateOk := true
  riskScore := 0
  pwhash := []
  smsRand := n
  smsSent := true
  unixTime := UInt64.ofNat n
  monotonicMs := UInt64.ofNat (1000 * n)
  raft := { err := 0, forwarded := false, applied := [] }
  heap := { load := fun _ => none, filterAddr := .firstPage }
  recordAddr := .secondPage

/-- A request whose body is an object of these strings. -/
def jsonRequest (fields : List (String × Bytes)) : Request where
  authToken := []
  hasBody := true
  json := some (.obj (fields.map fun f => (lit f.1, .str f.2)))
  dpopProof := []
  methodStr := lit "POST"
  host := lit "sso"
  path := []

/-- The text of an access token that the sample server has issued to a user. -/
def sampleToken (uid : UInt64) : Bytes :=
  match tokenIssue samplePlatform.crypto (sampleServer []).tokens
      { userId := uid, roleIds := [], groupIds := [], scope := none, ttlMs := 3600000,
        dpopJkt := none }
      (sampleMoment 0).draws.access with
  | .ok tok => tok.tokenStr
  | .error _ => []

end SsoSystem
