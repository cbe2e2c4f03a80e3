/-
SsoSystem.Http.OAuthTheorems — what the token endpoint can do.

`TokenEffect` lists the outcomes of `handle_oauth_token` with the tables it
leaves; `handleOauthToken_effect` is the inversion every later result about
the endpoint starts from.
-/
import SsoSystem.Http.OAuth

namespace SsoSystem

open CMem Handling Server

variable {P : Platform} {cfg : ServerConfig} {env : Moment} {s s' : Server} {a : Answer}

/-! ## §1 The helpers -/

variable {message : String} {status : Nat} {user : User}

/-- A handler that fails answers and changes nothing. -/
theorem exec_fail (h : (fail status message).exec Server.perform s = some (a, s')) :
    a = .error status (lit message) ∧ s' = s := by
  cases h
  exact ⟨rfl, rfl⟩

variable {clientId jkt : Bytes} {req : Request}

/-- The client's own lifetime only chooses the number that is passed on. -/
theorem exec_withClientTtl {k : Int64 → Handling}
    (h : (withClientTtl cfg clientId k).exec Server.perform s = some (a, s')) :
    ∃ ttl, (k ttl).exec Server.perform s = some (a, s') := by
  unfold withClientTtl at h
  split at h
  · exact ⟨_, h⟩
  · simp only [Prog.exec, perform] at h
    split at h
    · exact ⟨_, h⟩
    · exact ⟨_, h⟩

/-- What is run for a user is run for an active one. -/
theorem exec_withActiveUser {uid : Nat} {k : User → Handling}
    (h : (withActiveUser uid k).exec Server.perform s = some (a, s')) :
    (a = .error 403 (lit "user_inactive") ∧ s' = s) ∨
      ∃ user, s.sys.store.userGetById uid = some user ∧ user.status = .active ∧
        (k user).exec Server.perform s = some (a, s') := by
  simp only [withActiveUser, Prog.exec, perform] at h
  cases hu : s.sys.store.userGetById uid with
  | none =>
    simp only [hu] at h
    exact .inl (exec_fail h)
  | some user =>
    simp only [hu] at h
    split at h
    · exact .inl (exec_fail h)
    · next hactive => exact .inr ⟨user, rfl, not_not.mp hactive, h⟩

/-- A token that `handle_oauth_token` issued to a user with this scope and thumbprint. -/
def IssuedFor (P : Platform) (env : Moment) (s : Server) (uid : Nat) (scope : Option Bytes)
    (jkt : Bytes)
    (tok : Token) : Prop :=
  ∃ args, tokenIssue P.crypto s.tokens args env.draws.access = .ok tok ∧
    args.userId = UInt64.ofNat uid ∧
    args.scope = scope ∧ args.dpopJkt = some jkt

/-- The token is issued for that user, with the scope and the key binding asked for, or the answer
is an error. -/
theorem exec_issueForUser {scope : Option Bytes} {k : Token → Handling}
    (h : (issueForUser P cfg env user scope clientId jkt k).exec Server.perform s = some (a, s')) :
    (a = .error 500 (lit "server_error") ∧ s' = s) ∨
      ∃ tok, IssuedFor P env s user.id scope jkt tok ∧ (k tok).exec Server.perform s =
        some (a, s') := by
  obtain ⟨ttl, h⟩ := exec_withClientTtl h
  simp only [Prog.exec, perform, auth] at h
  split at h
  · exact .inl (exec_fail h)
  · next tok htok => exact .inr ⟨tok, ⟨_, htok, rfl, rfl, rfl⟩, h⟩

/-! ## §2 The outcomes -/

/-- The request gets past the checks in front of the grants, with this grant type. -/
structure ReachesGrant (P : Platform) (cfg : ServerConfig) (req : Request) (grantType : String)
    (jkt : Bytes) : Prop where
  configured : cstr cfg.oauthClientId ≠ []
  body : req.hasBody = true
  proof : requestJkt P req = some jkt
  grant : reqJsonStrValue req (lit "grant_type") = some (lit grantType)

/-- The request presents a refresh token to the refresh grant. -/
def PresentsRefresh (P : Platform) (cfg : ServerConfig) (req : Request) (token : Bytes) : Prop :=
  (∃ jkt, ReachesGrant P cfg req "refresh_token" jkt) ∧
    reqJsonStrValue req (lit "refresh_token") = some token

/-- The request presents a code with a redirect URI to the authorization-code grant. -/
def PresentsCode (P : Platform) (cfg : ServerConfig) (req : Request) (code redirectUri : Bytes) :
    Prop :=
  (∃ jkt, ReachesGrant P cfg req "authorization_code" jkt) ∧
    reqJsonStrValue req (lit "code") = some code ∧
    reqJsonStrValue req (lit "redirect_uri") = some redirectUri

/-- The answers and states `handle_oauth_token` can end with. -/
inductive TokenEffect (P : Platform) (cfg : ServerConfig) (env : Moment) (req : Request)
    (s : Server) :
    Answer → Server → Prop where
  | refused (status : Nat) (message : Bytes) : TokenEffect P cfg env req s (.error status message) s
  | client (args : IssueArgs) (tok : Token)
      (hissue : tokenIssue P.crypto s.tokens args env.draws.access = .ok tok)
      (huser : args.userId = 0) : TokenEffect P cfg env req s (.clientToken tok) s
  | codeSpent (code redirectUri : Bytes) (ac : AuthCode) (status : Nat) (message : Bytes)
      (hpresents : PresentsCode P cfg req code redirectUri)
      (hget : s.grants.oauthCodeGet code = some ac)
      (hok : codeAcceptable P env req redirectUri ac = true) :
      TokenEffect P cfg env req s (.error status message)
        { s with grants := s.grants.oauthCodeMarkUsed ac.code }
  | code (code redirectUri jkt : Bytes) (ac : AuthCode) (user : User) (tok : Token)
      (hpresents : PresentsCode P cfg req code redirectUri)
      (hget : s.grants.oauthCodeGet code = some ac)
      (hok : codeAcceptable P env req redirectUri ac = true)
      (huser : s.sys.store.userGetById ac.userId = some user) (hactive : user.status = .active)
      (hissue : IssuedFor P env s user.id (some ac.scope) jkt tok) :
      TokenEffect P cfg env req s
        (.codeTokens tok user.id (strstr (lit "openid") (cstr ac.scope)).isSome)
        { s with
          grants := (s.grants.oauthCodeMarkUsed ac.code).refreshTokenCreate
            (refreshRecord P env user.id ac.clientId tok.rawRefreshToken) }
  | replayed (token : Bytes) (rt : RefreshToken) (hpresents : PresentsRefresh P cfg req token)
      (hget : s.grants.refreshTokenGet (refreshHash P token) = some rt)
      (hrevoked : rt.revoked = true) :
      TokenEffect P cfg env req s (.error 400 (lit "invalid_grant"))
        { s with grants := s.grants.refreshTokenRevokeFamily rt.userId rt.clientId }
  | rotated (token jkt : Bytes) (rt : RefreshToken) (user : User) (tok : Token)
      (hpresents : PresentsRefresh P cfg req token)
      (hget : s.grants.refreshTokenGet (refreshHash P token) = some rt)
      (hfresh : rt.revoked = false)
      (hactive : s.sys.store.userGetById rt.userId = some user)
      (hissue : IssuedFor P env s user.id none jkt tok) :
      TokenEffect P cfg env req s (.refreshedTokens tok)
        { s with
          grants := (s.grants.refreshTokenRevoke (refreshHash P token)).refreshTokenCreate
            (refreshRecord P env user.id rt.clientId tok.rawRefreshToken) }

/-- An error is one of the outcomes. -/
theorem TokenEffect.of_fail (h : (fail status message).exec Server.perform s = some (a, s')) :
    TokenEffect P cfg env req s a s' := by
  obtain ⟨rfl, rfl⟩ := exec_fail h
  exact .refused _ _

/-- The code is marked used before the tokens are made, so also if issuing them fails. -/
theorem codeGrant_effect (hreach : ReachesGrant P cfg req "authorization_code" jkt)
    (h : (codeGrant P cfg env req jkt).exec Server.perform s = some (a, s')) :
    TokenEffect P cfg env req s a s' := by
  unfold codeGrant at h
  split at h
  · next code redirectUri hcode huri =>
    have hpresents : PresentsCode P cfg req code redirectUri := ⟨⟨jkt, hreach⟩, hcode, huri⟩
    simp only [Prog.exec, perform] at h
    split at h
    · exact .of_fail h
    · next ac hget =>
      split at h
      · next hok =>
        rcases exec_withActiveUser h with ⟨rfl, rfl⟩ | ⟨user, huser, hactive, h⟩
        · exact .codeSpent code redirectUri ac _ _ hpresents hget hok
        · rcases exec_issueForUser h with ⟨rfl, rfl⟩ | ⟨tok, hissue, h⟩
          · exact .codeSpent code redirectUri ac _ _ hpresents hget hok
          · cases h
            exact .code code redirectUri jkt ac user tok hpresents hget hok huser hactive hissue
      · exact .of_fail h
  · exact .of_fail h

/-- A token for a client has no user and no refresh token. -/
theorem issueForClient_effect
    (h : (issueForClient P cfg env req clientId jkt).exec Server.perform s = some (a, s')) :
    TokenEffect P cfg env req s a s' := by
  obtain ⟨ttl, h⟩ := exec_withClientTtl h
  simp only [Prog.exec, perform, auth] at h
  split at h
  · exact .of_fail h
  · next tok htok =>
    cases h
    exact .client _ tok htok rfl

/-- The client credentials grant fails or issues one token without a user. -/
theorem clientGrant_effect
    (h : (clientGrant P cfg env req jkt).exec Server.perform s = some (a, s')) :
    TokenEffect P cfg env req s a s' := by
  unfold clientGrant at h
  split at h
  · split at h
    · split at h
      · exact issueForClient_effect h
      · exact .of_fail h
    · simp only [Prog.exec, perform] at h
      split at h
      · exact .of_fail h
      · split at h
        · exact .of_fail h
        · split at h
          · exact .of_fail h
          · exact issueForClient_effect h
  · exact .of_fail h

/-- A refresh token used twice costs its whole family; else it is replaced by its successor. -/
theorem refreshGrant_effect (hreach : ReachesGrant P cfg req "refresh_token" jkt)
    (h : (refreshGrant P cfg env req jkt).exec Server.perform s = some (a, s')) :
    TokenEffect P cfg env req s a s' := by
  unfold refreshGrant at h
  split at h
  · exact .of_fail h
  · next token htoken =>
    have hpresents : PresentsRefresh P cfg req token := ⟨⟨jkt, hreach⟩, htoken⟩
    simp only [Prog.exec, perform] at h
    split at h
    · exact .of_fail h
    · next rt hget =>
      split at h
      · next hrevoked =>
        cases h
        exact .replayed token rt hpresents hget hrevoked
      · next hfresh =>
        split at h
        · exact .of_fail h
        · rcases exec_withActiveUser h with ⟨rfl, rfl⟩ | ⟨user, huser, hactive, h⟩
          · exact .refused _ _
          · rcases exec_issueForUser h with ⟨rfl, rfl⟩ | ⟨tok, hissue, h⟩
            · exact .refused _ _
            · cases h
              exact .rotated token jkt rt user tok hpresents hget (by simpa using hfresh) huser
                hissue

/-- Every outcome of the token endpoint, for all three grants. -/
theorem handleOauthToken_effect
    (h : (handleOauthToken P cfg env req).exec Server.perform s = some (a, s')) :
    TokenEffect P cfg env req s a s' := by
  unfold handleOauthToken at h
  split_ifs at h with hconf hbody
  · exact .of_fail h
  · exact .of_fail h
  · split at h
    · exact .of_fail h
    · next jkt hjkt =>
      have hreach : ∀ {g : String}, reqJsonStrValue req (lit "grant_type") = some (lit g) →
          ReachesGrant P cfg req g jkt := fun hg => ⟨hconf, by simpa using hbody, hjkt, hg⟩
      split at h
      · exact .of_fail h
      · next grantType hgrant =>
        split_ifs at h with hcode hclient hrefresh
        · exact codeGrant_effect (hreach (hcode ▸ hgrant)) h
        · exact clientGrant_effect h
        · exact refreshGrant_effect (hreach (hrefresh ▸ hgrant)) h
        · exact .of_fail h

/-! ## §3 Authorization -/

/-- A handler behind `require_auth` runs only for an authenticated caller. -/
theorem exec_requireAuth {req : HttpRequest} {handler : AuthUser → Handling}
    (h : (requireAuth P env req handler).exec Server.perform s = some (a, s')) :
    (∃ message, a = .error 401 message ∧ s' = s) ∨
      ∃ auth, authenticateRequest P.crypto P.dpop s.auth env.now req.toRequest = some (.ok auth) ∧
        (handler auth).exec Server.perform s = some (a, s') := by
  simp only [requireAuth, Prog.exec, perform] at h
  split at h
  · cases h
  · exact .inl ⟨_, exec_fail h⟩
  · next auth hauth => exact .inr ⟨auth, hauth, h⟩

/-- What an authorization that was granted has passed. -/
structure Authorizes (req : HttpRequest) (user : User) (clientId redirectUri : Bytes) : Prop where
  client : lastParam req.queryParams (lit "client_id") = some clientId
  redirect : lastParam req.queryParams (lit "redirect_uri") = some redirectUri
  method : unknownMethod req.queryParams = false
  allowed : ∃ uris, isRedirectUriAllowed uris redirectUri = true
  active : user.status = .active

/-- A code is stored only for a registered redirect URI, and bound to what the request says. -/
theorem authorizeFor_effect {req : HttpRequest} {redirectUri responseType uris : Bytes}
    (hclient : lastParam req.queryParams (lit "client_id") = some clientId)
    (hredirect : lastParam req.queryParams (lit "redirect_uri") = some redirectUri)
    (hmethod : unknownMethod req.queryParams = false)
    (h : (authorizeFor cfg env req.queryParams user clientId redirectUri responseType uris).exec
      Server.perform s = some (a, s')) :
    (∃ status message, a = .error status message ∧ s' = s) ∨
      ∃ clientId redirectUri location, Authorizes req user clientId redirectUri ∧
        a = .redirected location ∧
        s' = { s with
          grants := s.grants.oauthCodeCreate
            (authCodeOf cfg env user req.queryParams clientId redirectUri) } := by
  unfold authorizeFor at h
  split_ifs at h with hallowed hresponse hactive
  · exact .inl ⟨_, _, exec_fail h⟩
  · exact .inl ⟨_, _, exec_fail h⟩
  · exact .inl ⟨_, _, exec_fail h⟩
  · cases h
    exact .inr ⟨_, _, _,
      ⟨hclient, hredirect, hmethod, ⟨uris, by simpa using hallowed⟩, not_not.mp hactive⟩, rfl, rfl⟩

/-- The authorization endpoint stores one code and redirects, or it fails and stores none. -/
theorem handleOauthAuthorize_effect {req : HttpRequest} {auth : AuthUser}
    (h : (handleOauthAuthorize cfg env req auth).exec Server.perform s = some (a, s')) :
    (∃ status message, a = .error status message ∧ s' = s) ∨
      ∃ clientId redirectUri location, Authorizes req auth.1 clientId redirectUri ∧
        a = .redirected location ∧
        s' = { s with
          grants := s.grants.oauthCodeCreate
            (authCodeOf cfg env auth.1 req.queryParams clientId redirectUri) } := by
  unfold handleOauthAuthorize at h
  split at h
  · exact .inl ⟨_, _, exec_fail h⟩
  · split at h
    · next clientId redirectUri responseType hclient hredirect _ =>
      split_ifs at h with hmethod hconfig
      · exact .inl ⟨_, _, exec_fail h⟩
      · exact authorizeFor_effect hclient hredirect (by simpa using hmethod) h
      · simp only [Prog.exec, perform] at h
        split at h
        · exact .inl ⟨_, _, exec_fail h⟩
        · split at h
          · exact .inl ⟨_, _, exec_fail h⟩
          · exact authorizeFor_effect hclient hredirect (by simpa using hmethod) h
    · exact .inl ⟨_, _, exec_fail h⟩

end SsoSystem
