/-
SsoSystem.Http.CodeBinding — authorization codes, from the authorization that
issued them to the token request that redeems them.

A run is a sequence of authorization and token requests, with anything else
the server does in between: only these two write the table of codes. Beside
the server the run keeps the authorizations that were granted and the codes
that were redeemed.
-/
import Mathlib.Tactic.MkIffOfInductiveProp
import SsoSystem.Http.OAuthTheorems
import SsoSystem.Storage.GrantTheorems
import SsoSystem.Storage.MemoryTheorems
import SsoSystem.Token.IssuedScanTheorems

namespace SsoSystem

open CMem Handling List Option

/-! ## §1 Runs -/

/-- An authorization request that was granted, with the user it was authenticated as. -/
structure Authorization where
  env : Moment
  req : HttpRequest
  user : User

namespace Authorization

variable (cfg : ServerConfig) (a : Authorization)

def param (key : String) : Option Bytes := lastParam a.req.queryParams (lit key)

/-- The code record it stored. -/
def record : AuthCode :=
  authCodeOf cfg a.env a.user a.req.queryParams ((a.param "client_id").getD [])
    ((a.param "redirect_uri").getD [])

/-- The challenge method, plain unless named. -/
def method : Bytes := (a.param "code_challenge_method").getD (lit "plain")

end Authorization

/-- The server, the authorizations granted, and the codes that were exchanged for tokens. -/
structure CodeRun where
  srv : Server
  authorizations : List Authorization
  redeemed : List Bytes

inductive CodeEvent where
  | authorize (env : Moment) (req : HttpRequest)
  | token (env : Moment) (req : Request)
  | other (srv : Server)

namespace CodeRun

variable (P : Platform) (cfg : ServerConfig)

/-- Any server, before its first code. -/
def start (srv : Server) : CodeRun where
  srv := { srv with grants.codes := [] }
  authorizations := []
  redeemed := []

/-- The authorization behind a redirect. -/
def newAuthorization (s : CodeRun) (env : Moment) (req : HttpRequest) : Answer →
    Option Authorization
  | .redirected _ =>
    (authenticateRequest P.crypto P.dpop s.srv.auth env.now req.toRequest).bind fun auth =>
      auth.toOption.map fun auth => { env, req, user := auth.1 }
  | _ => none

def newRedeemed (req : Request) : Answer → List Bytes
  | .codeTokens _ _ _ => (reqJsonStrValue req (lit "code")).toList
  | _ => []

/-- What the token endpoint does with a request now. -/
def outcome (s : CodeRun) (env : Moment) (req : Request) : Option (Answer × Server) :=
  (handleOauthToken P cfg env req).exec Server.perform s.srv

def step (s : CodeRun) : CodeEvent → Option CodeRun
  | .authorize env req =>
    ((requireAuth P env req (handleOauthAuthorize cfg env req)).exec Server.perform s.srv).map
      fun r =>
      { s with srv := r.2, authorizations := s.authorizations ++
      (s.newAuthorization P env req r.1).toList }
  | .token env req =>
    (s.outcome P cfg env req).map fun r =>
      { s with srv := r.2, redeemed := s.redeemed ++ newRedeemed req r.1 }
  | .other srv => some { s with srv := { srv with grants.codes := s.srv.grants.codes } }

/-- The authorization that issued the code a request presents. -/
def authorizationOf (s : CodeRun) (req : Request) : Option Authorization :=
  (reqJsonStrValue req (lit "code")).bind fun code =>
    s.authorizations.find? fun a => strEq (a.record cfg).code code

end CodeRun

/-! ## §2 What is expected of an exchange -/

/-- The request comes from this client: it names it, the client is the configured one or
still active, and its secret, if it has one, is given. -/
@[mk_iff] structure FromClient (P : Platform) (cfg : ServerConfig) (g : Grants) (req : Request)
    (clientId : Bytes) :
    Prop where
  named : reqJsonStrValue req (lit "client_id") = some clientId
  verified :
    if strEq clientId cfg.oauthClientId then
      cstr cfg.oauthClientSecret ≠ [] →
        ∃ secret ∈ reqJsonStrValue req (lit "client_secret"), strEq secret cfg.oauthClientSecret =
          true
    else
      ∃ client ∈ g.oauthClientGet clientId, client.status = 1 ∧
        (cstr client.clientSecretHash ≠ [] →
          ∃ secret ∈ reqJsonStrValue req (lit "client_secret"),
            P.pwhashVerify client.clientSecretHash secret = true)

instance (P : Platform) (cfg : ServerConfig) (g : Grants) (req : Request) (clientId : Bytes) :
    Decidable (FromClient P cfg g req clientId) :=
  decidable_of_iff' _ (fromClient_iff ..)

namespace CodeRun

variable (P : Platform) (cfg : ServerConfig)

/-- The token request comes from the client of the code, and the authorization asked for a
scope that fits its field and gave no empty challenge. -/
@[mk_iff] structure Proper (s : CodeRun) (req : Request) (a : Authorization) : Prop where
  client : FromClient P cfg s.srv.grants req (a.record cfg).clientId
  scope : ((a.param "scope").getD []).length ≤ 255
  challenge : a.param "code_challenge" ≠ some []

instance (s : CodeRun) (req : Request) (a : Authorization) : Decidable (s.Proper P cfg req a) :=
  decidable_of_iff' _ (proper_iff ..)

end CodeRun

/-! ## §3 Texts -/

namespace CodeRun

variable {P : Platform} {cfg : ServerConfig} {s : CodeRun}

/-- The codes in the table are those of the authorizations, in their order; what was
redeemed is used. -/
structure Inv (cfg : ServerConfig) (s : CodeRun) : Prop where
  table : s.srv.grants.codes.map (fun ac => { ac with used := false }) = s.authorizations.map
    (·.record cfg)
  granted : ∀ a ∈ s.authorizations, ∃ clientId redirectUri,
    Authorizes a.req a.user clientId redirectUri
  spent : ∀ code ∈ s.redeemed, s.srv.grants.CodeSpent code

variable {code : Bytes} {req : Request} {srv : Server} {env : Moment} {r : Answer × Server}

/-- No code at the start. -/
theorem inv_start (srv : Server) : (start srv).Inv cfg where
  table := rfl
  granted := by simp [start]
  spent := by simp [start]

/-- Marking codes as used and changes elsewhere keep the table in step. -/
theorem Inv.of_markUsed (h : s.Inv cfg) {more : List Bytes}
    (hcodes : srv.grants.codes.map (fun ac => { ac with used := false }) =
      s.srv.grants.codes.map (fun ac => { ac with used := false }))
    (hspent : ∀ code ∈ s.redeemed ++ more, srv.grants.CodeSpent code) :
    Inv cfg { s with srv, redeemed := s.redeemed ++ more } :=
  ⟨hcodes.trans h.table, h.granted, hspent⟩

/-- Marking a code changes the mark only. -/
theorem map_codes_markUsed (g : Grants) (code : Bytes) :
    (g.oauthCodeMarkUsed code).codes.map (fun ac => { ac with used := false }) =
      g.codes.map (fun ac => { ac with used := false }) := by
  apply map_updateFirst
  intro ac
  rfl

theorem codeSpent_congr {g g' : Grants} (heq : g'.codes = g.codes) (h : g.CodeSpent code) :
    g'.CodeSpent code := by
  rw [Grants.CodeSpent, Grants.oauthCodeGet, heq]
  exact h

/-- A new code goes to the end of the table with its authorization. -/
theorem inv_authorize {req : HttpRequest} (h : s.Inv cfg)
    (hexec : (requireAuth P env req (handleOauthAuthorize cfg env req)).exec Server.perform s.srv =
      some r) :
    Inv cfg { s with
      srv := r.2, authorizations :=
        s.authorizations ++ (s.newAuthorization P env req r.1).toList } := by
  obtain ⟨answer, srv⟩ := r
  rcases exec_requireAuth hexec with ⟨message, rfl, rfl⟩ | ⟨auth, hauth, hexec⟩
  · simpa [newAuthorization] using h
  · rcases handleOauthAuthorize_effect hexec with ⟨status, message, rfl, rfl⟩ | ⟨clientId,
      redirectUri, loc, hok, rfl, rfl⟩
    · simpa [newAuthorization] using h
    · have hnew : s.newAuthorization P env req (.redirected loc) =
        some { env, req, user := auth.1 } := by
        simp [newAuthorization, hauth, Except.toOption]
      simp only [hnew, toList_some]
      refine ⟨?_, ?_, fun code hcode => (h.spent code hcode).create _⟩
      · simp only [Grants.oauthCodeCreate, map_append, h.table, map_cons, map_nil]
        congr 2
        simp only [Authorization.record, Authorization.param, hok.client, hok.redirect, getD_some]
        rfl
      · intro a ha
        rcases mem_append.mp ha with ha | ha
        · exact h.granted a ha
        · rw [mem_singleton.mp ha]
          exact ⟨clientId, redirectUri, hok⟩

/-- A token request may mark a code and issues none. -/
theorem inv_token (h : s.Inv cfg) (hout : s.outcome P cfg env req = some r) :
    Inv cfg { s with srv := r.2, redeemed := s.redeemed ++ newRedeemed req r.1 } := by
  obtain ⟨answer, srv⟩ := r
  cases handleOauthToken_effect hout with
  | refused status message | client args tok hissue huser =>
    exact h.of_markUsed rfl (by simpa [newRedeemed] using h.spent)
  | codeSpent code redirectUri ac status message hpresents hget hok =>
    refine h.of_markUsed (map_codes_markUsed _ _) fun c hc => ?_
    exact (h.spent c (by simpa [newRedeemed] using hc)).markUsed ac.code
  | code code redirectUri jkt ac user tok hpresents hget hok huser hactive hissue =>
    refine h.of_markUsed (map_codes_markUsed _ _) fun c hc => ?_
    simp only [newRedeemed, hpresents.2.1, toList_some, mem_append, mem_singleton] at hc
    rcases hc with hc | rfl
    · exact (h.spent c hc).markUsed ac.code
    · have hcode : strEq ac.code c = true := by simpa only using find?_some hget
      exact Grants.codeSpent_markUsed hget (strEq_iff.mp hcode)
  | replayed token rt hpresents hget hrevoked
  | rotated token jkt rt user tok hpresents hget hlive huser hissue =>
    refine h.of_markUsed rfl fun c hc => ?_
    exact codeSpent_congr rfl (h.spent c (by simpa [newRedeemed] using hc))

/-- Every request keeps the table of codes in step with the authorizations. -/
theorem inv_step {s' : CodeRun} {e : CodeEvent} (h : s.Inv cfg) (hstep : s.step P cfg e = some s') :
    s'.Inv cfg := by
  cases e with
  | authorize env req =>
    obtain ⟨r, hexec, rfl⟩ := map_eq_some_iff.mp hstep
    exact inv_authorize h hexec
  | token env req =>
    obtain ⟨r, hout, rfl⟩ := map_eq_some_iff.mp hstep
    exact inv_token h hout
  | other srv =>
    cases hstep
    exact ⟨h.table, h.granted, fun code hcode => codeSpent_congr rfl (h.spent code hcode)⟩

/-! ## §5 Exchanges -/

def annServer : Server :=
  sampleServer [{ id := 1, username := lit "ann", phone := [], status := .active }]

/-- Ann's browser asks for a code for the configured client. -/
def authorizeRequest : HttpRequest where
  authToken := sampleToken 1
  hasBody := false
  json := none
  dpopProof := []
  methodStr := lit "GET"
  host := lit "sso"
  path := []
  method := .get
  queryParams := [lit "client_id=app", lit "redirect_uri=https://app/cb", lit "response_type=code",
    lit "scope=openid", lit "code_challenge=0123456789012345678901234567890123456789012"]
  bodyText := []
  bodyParsed := []

/-- The fields of the exchange, without those that say who asks. -/
def exchangeFields : List (String × Bytes) :=
  [("grant_type", lit "authorization_code"),
    ("code", (sampleMoment 1).codeRand.toList.flatMap hexByte),
    ("redirect_uri", lit "https://app/cb"),
    ("code_verifier", lit "0123456789012345678901234567890123456789012")]

def ownRequest : Request :=
  jsonRequest (exchangeFields ++ [("client_id", lit "app"), ("client_secret", lit "app-secret")])

/-- The id token of an exchange is the access token, which is signed before the nonce of the
authorization is looked at: it comes back only if it is empty. -/
theorem idToken_nonce_iff {P : Platform} {cfg : ServerConfig} {s : CodeRun}
    (hmgr : s.srv.tokens.Reachable) {env : Moment} {req : Request} {tok : Token} {uid : Nat}
    {srv' : Server} (hout : s.outcome P cfg env req = some (.codeTokens tok uid true, srv'))
    {m : TokenManager} {now : Int64} {out : Token}
    (hverify : tokenVerify P.crypto m now tok.tokenStr = some (.ok out)) :
    ∀ a nonce, s.authorizationOf cfg req = some a → a.param "nonce" = some nonce →
      (out.oauthNonce = nonce ↔ nonce = []) := by
  intro a nonce _ _
  obtain ⟨k, hk⟩ := TokenManager.keysOk_of_reachable hmgr
  generalize hanswer : Answer.codeTokens tok uid true = answer at hout
  cases handleOauthToken_effect hout with
  | code _ _ _ _ _ _ _ _ _ _ _ hissue =>
    obtain ⟨rfl, -, -⟩ := Answer.codeTokens.inj hanswer
    obtain ⟨args, hissue, -⟩ := hissue
    obtain ⟨-, -, -, -, hempty⟩ := scan_tokenVerify_issued hk hissue hverify
    rw [hempty, eq_comm]
  | _ => cases hanswer

def nonceRequest : HttpRequest :=
  { authorizeRequest with queryParams := lit "nonce=n-0S6" :: authorizeRequest.queryParams }

/-- Ann's browser asks for a code with a nonce, and the id token is read back. -/
structure NonceExchange (s : CodeRun) (tok : Token) (uid : Nat) (srv : Server) (a : Authorization)
    (out : Token) : Prop where
  asked : Run.run (step samplePlatform sampleConfig) [.authorize (sampleMoment 1) nonceRequest]
    (start annServer) = some s
  exchanged : s.outcome samplePlatform sampleConfig (sampleMoment 2) ownRequest =
    some (.codeTokens tok uid true, srv)
  authorized : s.authorizationOf sampleConfig ownRequest = some a
  given : a.param "nonce" = some (lit "n-0S6")
  verified : tokenVerify samplePlatform.crypto annServer.tokens 0 tok.tokenStr = some (.ok out)

theorem tokens_authorize {P : Platform} {cfg : ServerConfig} {env : Moment} {req : HttpRequest}
    {s s' : CodeRun} (h : Run.run (step P cfg) [.authorize env req] s = some s') :
    s'.srv.tokens = s.srv.tokens := by
  obtain ⟨_, hstep, ⟨⟩⟩ := bind_eq_some_iff.mp h
  obtain ⟨r, hexec, rfl⟩ := map_eq_some_iff.mp hstep
  rcases exec_requireAuth hexec with ⟨_, -, hsrv⟩ | ⟨auth, -, hexec⟩
  · exact congrArg Server.tokens hsrv
  · rcases handleOauthAuthorize_effect hexec with ⟨_, _, -, hsrv⟩ | ⟨_, _, _, -, -, hsrv⟩
    · exact congrArg Server.tokens hsrv
    · simp only [hsrv]

/-- The token of an exchange that also hands out an id token. -/
def openidToken : Option (Answer × Server) → Option Token
  | some (.codeTokens tok _ true, _) => some tok
  | _ => none

theorem codeTokens_of_openidToken {o : Option (Answer × Server)} {tok : Token}
    (h : openidToken o = some tok) : ∃ uid srv, o = some (.codeTokens tok uid true, srv) := by
  unfold openidToken at h
  split at h
  · next uid srv =>
    cases h
    exact ⟨uid, srv, rfl⟩
  · cases h

theorem exists_nonceExchange : ∃ s tok uid srv a out, NonceExchange s tok uid srv a out ∧
    s.srv.tokens = annServer.tokens ∧ out.oauthNonce ≠ lit "n-0S6" := by
  have hseen :
    (Run.run (step samplePlatform sampleConfig) [.authorize (sampleMoment 1) nonceRequest]
      (start annServer)).any fun s =>
        (s.authorizationOf sampleConfig ownRequest).any
          (fun a => a.param "nonce" = some (lit "n-0S6")) &&
        (openidToken (s.outcome samplePlatform sampleConfig (sampleMoment 2) ownRequest)).any
          fun tok =>
          (tokenVerify samplePlatform.crypto annServer.tokens 0 tok.tokenStr).any fun r =>
            r.toOption.any fun out => out.oauthNonce ≠ lit "n-0S6" := by
    decide +kernel
  obtain ⟨s, hrun, hs⟩ := (any_eq_true _ _).mp hseen
  obtain ⟨hgiven, hs⟩ := Bool.and_eq_true_iff.mp hs
  obtain ⟨a, hauthorized, hgiven⟩ := (any_eq_true _ _).mp hgiven
  obtain ⟨tok, htok, hs⟩ := (any_eq_true _ _).mp hs
  obtain ⟨uid, srv, hout⟩ := codeTokens_of_openidToken htok
  obtain ⟨r, hverify, hs⟩ := (any_eq_true _ _).mp hs
  obtain ⟨out, hr, hs⟩ := (any_eq_true _ _).mp hs
  rw [ok_of_toOption hr] at hverify
  exact ⟨s, tok, uid, srv, a, out, ⟨hrun, hout, hauthorized, of_decide_eq_true hgiven, hverify⟩,
    tokens_authorize hrun, of_decide_eq_true hs⟩

theorem nonceExchange_nonce_iff : ∃ s tok uid srv a out, NonceExchange s tok uid srv a out ∧
    (out.oauthNonce = lit "n-0S6" ↔ lit "n-0S6" = []) := by
  obtain ⟨s, tok, uid, srv, a, out, h, htokens, -⟩ := exists_nonceExchange
  have hreachable : s.srv.tokens.Reachable := htokens ▸ reachable_fresh
  exact ⟨s, tok, uid, srv, a, out, h, idToken_nonce_iff hreachable h.exchanged h.verified
    a (lit "n-0S6") h.authorized h.given⟩

/-- The nonce of the request is not in the id token that is handed out for its code. -/
theorem nonceExchange_loses : ∃ s tok uid srv a out, NonceExchange s tok uid srv a out ∧
    out.oauthNonce ≠ lit "n-0S6" := by
  obtain ⟨s, tok, uid, srv, a, out, h, -, hlost⟩ := exists_nonceExchange
  exact ⟨s, tok, uid, srv, a, out, h, hlost⟩

end CodeRun

end SsoSystem
