/-
SsoSystem.Http.OAuth — the OAuth endpoints of src/oauth.c: authorization,
token, introspection, revocation and end of session.

Each handler is a program over `Call`, in the order of the source's storage
calls. `req->userdata` is the argument `auth` of the handlers behind
`require_auth`. Discovery and JWKS documents are left out, and so are the
checks for storage functions the in-memory backend has.
-/
import SsoSystem.Http.Server

namespace SsoSystem

open CMem Handling

/-! ## §1 Parameters -/

/-- A query parameter, cut at its first `=`. -/
def splitParam (p : Bytes) : Option (Bytes × Bytes) :=
  match (cstr p).dropWhile (· != 61) with
  | [] => none
  | _ :: value => some ((cstr p).takeWhile (· != 61), value)

/-- The loop of `handle_oauth_authorize`: a later parameter overwrites an earlier one. -/
def lastParam (params : List Bytes) (key : Bytes) : Option Bytes :=
  ((params.filterMap splitParam).reverse.find? fun p => p.1 == key).map Prod.snd

/-- `get_query_param`: the first one counts. -/
def getQueryParam (params : List Bytes) (key : Bytes) : Option Bytes :=
  ((params.filterMap splitParam).find? fun p => p.1 == key).map Prod.snd

/-- `is_redirect_uri_allowed`. -/
def isRedirectUriAllowed (allowedUris redirectUri : Bytes) : Bool :=
  if cstr allowedUris = [] then false
  else (strtokComma (strlcpy 512 allowedUris)).any fun t => trimSpaces t == cstr redirectUri

variable (P : Platform) (cfg : ServerConfig) (env : Moment) (req : Request)

/-- `verify_pkce`. -/
def verifyPkce (codeVerifier : Option Bytes) (challenge method : Bytes) : Bool :=
  if cstr challenge = [] then true
  else
    match codeVerifier with
    | none => false
    | some v =>
      if v.length < 43 ∨ v.length > 128 then false
      else if strEq method (lit "plain") then strEq v challenge
      else if strEq method (lit "S256") then strEq (base64urlEncode 128 (P.sha256 v)) challenge
      else false

/-- The thumbprint of the request's proof, empty without one; `none` when it is not valid. -/
def requestJkt : Option Bytes :=
  if cstr req.dpopProof = [] then some []
  else (P.dpopVerifyProof req.dpopProof req.methodStr (fullUrl req) none).toOption.map (strlcpy 64)

/-! ## §2 Authorization -/

/-- The code record of an authorization. -/
def authCodeOf (user : User) (params : List Bytes) (clientId redirectUri : Bytes) : AuthCode where
  code := env.codeRand.toList.flatMap hexByte
  clientId := strlcpy 64 clientId
  userId := user.id
  redirectUri := strlcpy 512 redirectUri
  scope := strlcpy 256 ((lastParam params (lit "scope")).getD [])
  nonce := strlcpy 128 ((lastParam params (lit "nonce")).getD [])
  codeChallenge := strlcpy 256 ((lastParam params (lit "code_challenge")).getD [])
  codeChallengeMethod :=
    match lastParam params (lit "code_challenge_method") with
    | some method => strlcpy 16 method
    | none => if (lastParam params (lit "code_challenge")).isSome then lit "plain" else []
  expiresAt := env.now + if cfg.oauthAuthCodeTtlMs > 0 then cfg.oauthAuthCodeTtlMs else 60000
  used := false

/-- `code_challenge_method` is given and neither of the two known ones. -/
def unknownMethod (params : List Bytes) : Bool :=
  (lastParam params (lit "code_challenge_method")).any fun m => m != lit "S256" && m != lit "plain"

/-- The rest of the authorization, for a client with these redirect URIs. -/
def authorizeFor (params : List Bytes) (user : User)
    (clientId redirectUri responseType allowedUris : Bytes) : Handling :=
  if !isRedirectUriAllowed allowedUris redirectUri then fail 400 "invalid_redirect_uri"
  else if responseType ≠ lit "code" then fail 400 "unsupported_response_type"
  else if user.status ≠ .active then fail 403 "user_inactive"
  else
    let ac := authCodeOf cfg env user params clientId redirectUri
    .call (.oauthCodeCreate ac) fun _ =>
      .ret (.redirected (strlcpy 2048 (redirectUri ++ lit "?code=" ++ ac.code ++
        match lastParam params (lit "state") with
        | some state => lit "&state=" ++ state
        | none => [])))

/-- `handle_oauth_authorize`. -/
def handleOauthAuthorize (cfg : ServerConfig) (env : Moment) (req : HttpRequest) (auth : AuthUser) :
    Handling :=
  if cstr cfg.oauthClientId = [] then fail 400 "oauth_not_configured"
  else
    match lastParam req.queryParams (lit "client_id"), lastParam req.queryParams
      (lit "redirect_uri"),
      lastParam req.queryParams (lit "response_type") with
    | some clientId, some redirectUri, some responseType =>
      if unknownMethod req.queryParams then fail 400 "invalid_request"
      else if strEq clientId cfg.oauthClientId then
        authorizeFor cfg env req.queryParams auth.1 clientId redirectUri responseType
          cfg.oauthRedirectUris
      else
        .call (.oauthClientGet clientId) fun
          | none => fail 400 "unauthorized_client"
          | some client =>
            if client.status ≠ 1 then fail 400 "unauthorized_client"
            else
              authorizeFor cfg env req.queryParams auth.1 clientId redirectUri responseType
                client.redirectUris
    | _, _, _ => fail 400 "invalid_request"

/-! ## §3 Tokens -/

/-- `get_client_token_ttl`. -/
def withClientTtl (clientId : Bytes) (k : Int64 → Handling) : Handling :=
  if cstr cfg.oauthClientId ≠ [] ∧ strEq clientId cfg.oauthClientId then
    k (if cfg.tokenTtlMs > 0 then cfg.tokenTtlMs else 3600000)
  else
    .call (.oauthClientGet clientId) fun
      | some client => k (if client.tokenTtlMs > 0 then client.tokenTtlMs else 3600000)
      | none => k 3600000

/-- The hash a refresh token is stored under: SHA-256 in hex. -/
def refreshHash (token : Bytes) : Bytes := (P.sha256 token).flatMap hexByte

/-- The record of `store_refresh_token`. -/
def refreshRecord (userId : Nat) (clientId raw : Bytes) : RefreshToken where
  tokenHash := refreshHash P raw
  userId := userId
  clientId := strlcpy 64 clientId
  issuedAt := env.storedAt
  expiresAt := env.storedAt + 2592000000
  revoked := false

/-- A token for a user, with up to 16 roles and groups. -/
def issueForUser (user : User) (scope : Option Bytes)
    (clientId jkt : Bytes) (k : Token → Handling) : Handling :=
  .call (.getUserRoles user.id) fun roles =>
  .call (.getUserGroups user.id) fun groups =>
  withClientTtl cfg clientId fun ttl =>
  .call .authContext fun ctx =>
    match tokenIssue P.crypto ctx.tokens
        { userId := UInt64.ofNat user.id
          roleIds := roles.map UInt64.ofNat
          groupIds := groups.map UInt64.ofNat
          scope := scope
          ttlMs := ttl
          dpopJkt := some jkt } env.draws.access with
    | .error _ => fail 500 "server_error"
    | .ok tok => k tok

/-- The user of a grant, who must be active. -/
def withActiveUser (uid : Nat) (k : User → Handling) : Handling :=
  .call (.userGetById uid) fun
    | none => fail 403 "user_inactive"
    | some user => if user.status ≠ .active then fail 403 "user_inactive" else k user

/-- What the authorization-code grant does once the code has passed its checks. -/
def redeemCode (ac : AuthCode) (jkt : Bytes) : Handling :=
  .call (.oauthCodeMarkUsed ac.code) fun _ =>
  withActiveUser ac.userId fun user =>
  issueForUser P cfg env user (some ac.scope) ac.clientId jkt fun tok =>
  .call (.refreshTokenCreate (refreshRecord P env user.id ac.clientId tok.rawRefreshToken)) fun _ =>
    .ret (.codeTokens tok user.id (strstr (lit "openid") (cstr ac.scope)).isSome)

/-- The checks of the authorization-code grant on the stored code. -/
def codeAcceptable (redirectUri : Bytes) (ac : AuthCode) : Bool :=
  !ac.used && !decide (env.now > ac.expiresAt) && strEq ac.redirectUri redirectUri &&
    verifyPkce P (reqJsonStrValue req (lit "code_verifier")) ac.codeChallenge ac.codeChallengeMethod

/-- `grant_type=authorization_code`. -/
def codeGrant (jkt : Bytes) : Handling :=
  match reqJsonStrValue req (lit "code"), reqJsonStrValue req (lit "redirect_uri") with
  | some code, some redirectUri =>
    .call (.oauthCodeGet code) fun
      | none => fail 400 "invalid_grant"
      | some ac =>
        if codeAcceptable P env req redirectUri ac then redeemCode P cfg env ac jkt
        else fail 400 "invalid_grant"
  | _, _ => fail 400 "invalid_request"

/-- The token of a client, under user id 0. -/
def issueForClient (clientId jkt : Bytes) : Handling :=
  withClientTtl cfg clientId fun ttl =>
  .call .authContext fun ctx =>
    match tokenIssue P.crypto ctx.tokens
        { userId := 0
          roleIds := []
          groupIds := []
          scope := reqJsonStrValue req (lit "scope")
          ttlMs := ttl
          dpopJkt := some jkt } env.draws.access with
    | .error _ => fail 500 "server_error"
    | .ok tok => .ret (.clientToken tok)

/-- `grant_type=client_credentials`. -/
def clientGrant (jkt : Bytes) : Handling :=
  match reqJsonStrValue req (lit "client_id"), reqJsonStrValue req (lit "client_secret") with
  | some clientId, some clientSecret =>
    if strEq clientId cfg.oauthClientId then
      if strEq clientSecret cfg.oauthClientSecret then issueForClient P cfg env req clientId jkt
      else fail 401 "invalid_client"
    else
      .call (.oauthClientGet clientId) fun
        | none => fail 401 "invalid_client"
        | some client =>
          if client.status ≠ 1 ∨ !P.pwhashVerify client.clientSecretHash clientSecret then
            fail 401 "invalid_client"
          else if cstr client.allowedGrantTypes ≠ [] ∧
              strstr (lit "client_credentials") (cstr client.allowedGrantTypes) = none then
            fail 400 "unauthorized_client"
          else issueForClient P cfg env req clientId jkt
  | _, _ => fail 400 "invalid_request"

/-- The rotation of a refresh token that is neither revoked nor expired. -/
def rotateRefresh (hash : Bytes) (rt : RefreshToken) (jkt : Bytes) : Handling :=
  withActiveUser rt.userId fun user =>
  issueForUser P cfg env user none rt.clientId jkt fun tok =>
  .call (.refreshTokenRevoke hash) fun _ =>
  .call (.refreshTokenCreate (refreshRecord P env user.id rt.clientId tok.rawRefreshToken)) fun _ =>
    .ret (.refreshedTokens tok)

/-- `grant_type=refresh_token`. -/
def refreshGrant (jkt : Bytes) : Handling :=
  match reqJsonStrValue req (lit "refresh_token") with
  | none => fail 400 "invalid_request"
  | some token =>
    .call (.refreshTokenGet (refreshHash P token)) fun
      | none => fail 400 "invalid_grant"
      | some rt =>
        if rt.revoked then
          .call (.refreshTokenRevokeFamily rt.userId rt.clientId) fun _ => fail 400 "invalid_grant"
        else if env.now > rt.expiresAt then fail 400 "invalid_grant"
        else rotateRefresh P cfg env (refreshHash P token) rt jkt

/-- `handle_oauth_token`. -/
def handleOauthToken : Handling :=
  if cstr cfg.oauthClientId = [] then fail 400 "oauth_not_configured"
  else if !req.hasBody then fail 400 "invalid_request"
  else
    match requestJkt P req with
    | none => fail 400 "invalid_dpop_proof"
    | some jkt =>
      match reqJsonStrValue req (lit "grant_type") with
      | none => fail 400 "invalid_request"
      | some grantType =>
        if grantType = lit "authorization_code" then codeGrant P cfg env req jkt
        else if grantType = lit "client_credentials" then clientGrant P cfg env req jkt
        else if grantType = lit "refresh_token" then refreshGrant P cfg env req jkt
        else fail 400 "unsupported_grant_type"

/-! ## §4 Introspection, revocation, end of session -/

/-- A handler of the acceptance paths, on what it reads. -/
def accepting (handler : AuthContext → Option Reply) : Handling :=
  .call .authContext fun ctx =>
    match handler ctx with
    | none => .stuck
    | some reply => .ret (.accepted reply)

/-- `token_verify` with what follows on success and on failure. -/
def verifying (t : Bytes) (ok : Token → Handling) (bad : Handling) : Handling :=
  .call .authContext fun ctx =>
    match tokenVerify P.crypto ctx.tokens env.now t with
    | none => .stuck
    | some (.ok tok) => ok tok
    | some (.error _) => bad

/-- `handle_oauth_revoke`. -/
def handleOauthRevoke : Handling :=
  if !req.hasBody then fail 400 "invalid_request"
  else
    match reqJsonStrValue req (lit "token") with
    | none => fail 400 "invalid_request"
    | some t =>
      verifying P env t
        (fun tok => .call (.tokenRevoke tok.jti tok.expiresAt) fun _ =>
          ok "\x7b\"status\":\"ok\"\x7d")
        (ok "\x7b\"status\":\"ok\"\x7d")

/-- The answer of `handle_oauth_end_session`, where the redirect URI may belong to the
configured client or to one of the first 64 stored ones. -/
def endSessionAnswer (cfg : ServerConfig) (req : HttpRequest) : Handling :=
  match getQueryParam req.queryParams (lit "post_logout_redirect_uri") with
  | none => ok "\x7b\"status\":\"logged_out\"\x7d"
  | some uri =>
    let location := strlcpy 1024
      (match getQueryParam req.queryParams (lit "state") with
        | some state => uri ++ [if 63 ∈ uri then 38 else 63] ++ lit "state=" ++ state
        | none => uri)
    if isRedirectUriAllowed cfg.oauthRedirectUris uri then .ret (.redirected location)
    else
      .call .oauthClientList fun clients =>
        if clients.any fun c => isRedirectUriAllowed c.redirectUris uri then .ret
          (.redirected location)
        else ok "\x7b\"status\":\"logged_out\"\x7d"

/-- `handle_oauth_end_session`. Its route does not authenticate, so `req->userdata` is NULL. -/
def handleOauthEndSession (P : Platform) (cfg : ServerConfig) (env : Moment) (req : HttpRequest) :
    Handling :=
  match getQueryParam req.queryParams (lit "id_token_hint") with
  | none => endSessionAnswer cfg req
  | some hint =>
    verifying P env hint
      (fun tok =>
        .call (.tokenRevoke tok.jti tok.expiresAt) fun _ =>
        .call (.tokenBumpNonce tok.userId) fun _ => endSessionAnswer cfg req)
      (endSessionAnswer cfg req)

end SsoSystem
