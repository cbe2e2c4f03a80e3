/-
SsoSystem.Http.SecondFactor — what a user's tokens rest on.

The token `handle_login` hands out between the two factors is signed and read
like any other; its scope `mfa` is looked at nowhere. SMS and WebAuthn logins
do not ask for the second factor at all. So with the first factor alone every
route is open (`mfaToken_accepted`).
-/
import SsoSystem.Http.AcceptanceTheorems
import SsoSystem.Http.CodeBinding
import SsoSystem.Http.Unauthenticated

namespace SsoSystem

open CMem Handling Run List

variable {P : Platform} {cfg : ServerConfig} {env : Moment} {s s' : Server} {a : Answer}
    {e : HttpEvent}
  {u : UInt64}

/-! ## §1 What a request shows -/

/-- The texts a request shows as tokens. -/
def presentedTexts (req : Request) : List Bytes :=
  req.authToken :: ["token", "refresh_token", "mfa_token"].filterMap fun key =>
    reqJsonStrValue req (lit key)

/-- The request shows no token of the user. -/
def ShowsNone (P : Platform) (u : UInt64) (s : Server) (e : HttpEvent) : Prop :=
  ∀ text ∈ presentedTexts e.req.toRequest, ∀ tok,
    tokenVerify P.crypto s.tokens e.env.now text = some (.ok tok) → tok.userId ≠ u

/-- The request logs the user in by a password, an SMS code or an authenticator. -/
inductive FirstFactor (P : Platform) (cfg : ServerConfig) (u : UInt64) (s : Server)
    (e : HttpEvent) : Prop where
  | password (user : User) (hhandler : handlerOf e.req = some .login)
      (hright : PasswordRight P cfg e.env s e.req.toRequest user) (hid : UInt64.ofNat user.id = u)
  | sms (phone : Bytes) (user : User) (t : Server) (hhandler : handlerOf e.req = some .loginBySms)
      (hright : SmsCodeRight e.env s e.req.toRequest phone) (huser : PhoneUser e.env phone s user t)
      (hid : UInt64.ofNat user.id = u)
  | webauthn (user : User) (hhandler : handlerOf e.req = some .webauthnLogin)
      (hright : AssertionRight P s e.req.toRequest user) (hid : UInt64.ofNat user.id = u)

/-- No code and no refresh token of the user is stored. -/
structure NoGrant (u : UInt64) (s : Server) : Prop where
  codes : ∀ ac ∈ s.grants.codes, UInt64.ofNat ac.userId ≠ u
  refreshTokens : ∀ rt ∈ s.grants.refreshTokens, UInt64.ofNat rt.userId ≠ u

/-! ## §2 Handlers -/

/-- The answer has no token of the user, and none can be got with what is stored. -/
structure Unissued (u : UInt64) (a : Answer) (s' : Server) : Prop where
  tokens : ∀ tok ∈ a.tokens, tok.userId ≠ u
  grants : NoGrant u s'

variable {c : Crypto} {tok : Token} {store : Store} {user : User} {text : Bytes} {req : Request}
  {auth : AuthUser}

theorem userId_of_tokenIssue {m : TokenManager} {args : IssueArgs} {draw : IssueEnv}
    (h : tokenIssue c m args draw = .ok tok) (hid : args.userId ≠ u) : tok.userId ≠ u := by
  rw [(tokenIssue_claims h).1]
  exact hid

theorem ofNat_id_of_get {id : Nat} (h : store.userGetById id = some user) :
    UInt64.ofNat user.id = UInt64.ofNat id := by
  rw [Store.userGetById_id h]

theorem ofNat_id_of_token
    (h : store.userGetById tok.userId.toNat = some user) : UInt64.ofNat user.id = tok.userId := by
  rw [ofNat_id_of_get h, UInt64.ofNat_toNat]

theorem NoGrant.of_grants (h : NoGrant u s) (hg : s'.grants.codes = s.grants.codes)
    (hr : s'.grants.refreshTokens = s.grants.refreshTokens) : NoGrant u s' :=
  ⟨hg ▸ h.codes, hr ▸ h.refreshTokens⟩

theorem IssuedPair.userId_ne {jkt : Option Bytes} {access refresh : Token}
    (h : IssuedPair P env s user jkt access refresh) (hid : UInt64.ofNat user.id ≠ u) :
    ∀ tok ∈ [access, refresh], tok.userId ≠ u := by
  intro tok htok
  rcases mem_pair.mp htok with rfl | rfl
  · exact userId_of_tokenIssue h.access hid
  · exact userId_of_tokenIssue h.refresh hid

theorem DerivedFrom.userId_ne {ctx : AuthContext} {now : Int64} (h : DerivedFrom c ctx now text tok)
    (hne : ∀ old, tokenVerify c ctx.tokens now text = some (.ok old) → old.userId ≠ u) :
    tok.userId ≠ u := by
  obtain ⟨old, user, args, draw, hgood, hargs, -, hissue⟩ := h
  refine userId_of_tokenIssue hissue ?_
  rw [hargs, ofNat_id_of_token hgood.user]
  exact hne old hgood.reads

theorem handleLogin_unissued (hhandler : handlerOf e.req = some .login) (hgrants : NoGrant u s)
    (hfirst : ¬FirstFactor P cfg u s e)
    (h : (handleLogin P cfg e.env e.req.toRequest).exec Server.perform s = some (a, s')) :
      Unissued u a s' := by
  have hid : ∀ {user : User}, PasswordRight P cfg e.env s e.req.toRequest user →
    UInt64.ofNat user.id ≠ u :=
    fun hright hid => hfirst (.password _ hhandler hright hid)
  cases handleLogin_effect h with
  | refused => exact ⟨nofun, hgrants⟩
  | secondFactor user tok hpassword hneeded htok =>
    refine ⟨fun t ht => ?_, hgrants⟩
    cases mem_singleton.mp ht
    exact userId_of_tokenIssue htok (hid hpassword)
  | loggedIn user jkt access refresh hpassword hmfa hpair =>
    exact ⟨hpair.userId_ne (hid hpassword), hgrants.of_grants rfl rfl⟩

theorem handleLoginBySms_unissued (hhandler : handlerOf e.req = some .loginBySms)
    (hgrants : NoGrant u s)
    (hfirst : ¬FirstFactor P cfg u s e)
    (h : (handleLoginBySms P e.env e.req.toRequest).exec Server.perform s = some (a, s')) :
    Unissued u a s' := by
  have hkept : ∀ {phone user t}, PhoneUser e.env phone s user t → NoGrant u t := by
    rintro phone user t (⟨user, huser⟩ | ⟨id, sys, hnone, hsys, hid⟩)
    · exact hgrants.of_grants rfl rfl
    · exact hgrants.of_grants rfl rfl
  cases handleLoginBySms_effect h with
  | untouched | refused => exact ⟨nofun, hgrants⟩
  | spent => exact ⟨nofun, hgrants.of_grants rfl rfl⟩
  | refusedUser status message phone user t hright huser => exact ⟨nofun, hkept huser⟩
  | loggedIn phone user t tok hright huser htok =>
    refine ⟨fun t ht => ?_, hkept huser⟩
    cases mem_singleton.mp ht
    exact userId_of_tokenIssue htok fun hid => hfirst (.sms phone user s' hhandler hright huser hid)

theorem handleWebauthnLogin_unissued (hhandler : handlerOf e.req = some .webauthnLogin)
    (hgrants : NoGrant u s) (hfirst : ¬FirstFactor P cfg u s e)
    (h : (handleWebauthnLogin P cfg e.env e.req.toRequest).exec Server.perform s = some (a, s')) :
    Unissued u a s' := by
  cases handleWebauthnLogin_effect h with
  | refused => exact ⟨nofun, hgrants⟩
  | loggedIn user access refresh proof hright haccess hrefresh =>
    have hid : UInt64.ofNat user.id ≠ u := fun hid => hfirst (.webauthn user hhandler hright hid)
    refine ⟨fun tok htok => ?_, hgrants⟩
    rcases mem_pair.mp htok with rfl | rfl
    · exact userId_of_tokenIssue haccess hid
    · exact userId_of_tokenIssue hrefresh hid

theorem mem_presentedTexts {key : String}
    (hkey : key ∈ ["token", "refresh_token", "mfa_token"])
    (h : reqJsonStrValue req (lit key) = some text) :
    text ∈ presentedTexts req :=
  mem_cons_of_mem _ (mem_filterMap.mpr ⟨key, hkey, h⟩)

theorem handleMfaVerify_unissued (hshows : ShowsNone P u s e) (hgrants : NoGrant u s)
    (h : (handleMfaVerify P e.env e.req.toRequest).exec Server.perform s = some (a, s')) :
    Unissued u a s' := by
  cases handleMfaVerify_effect h with
  | refused => exact ⟨nofun, hgrants⟩
  | loggedIn user access refresh hright hpair =>
    obtain ⟨text, code, tok, htext, -, htok, huser, -⟩ := hright
    have hne := hshows text (mem_presentedTexts (by decide) htext) tok htok
    exact ⟨hpair.userId_ne (ofNat_id_of_token huser ▸ hne), hgrants⟩

/-- A handler that derives its tokens from a text of the request. -/
theorem accepting_unissued {handler : AuthContext → Option Reply} (hshows : ShowsNone P u s e)
    (hgrants : NoGrant u s)
    (hderived : ∀ reply tok, handler s.auth = some reply → tok ∈ (Answer.accepted reply).tokens →
      ∃ text ∈ presentedTexts e.req.toRequest, DerivedFrom P.crypto s.auth e.env.now text tok)
    (h : (accepting handler).exec Server.perform s = some (a, s')) : Unissued u a s' := by
  obtain ⟨reply, hreply, rfl, rfl⟩ := exec_accepting h
  refine ⟨fun tok htok => ?_, hgrants⟩
  obtain ⟨text, htext, hfrom⟩ := hderived reply tok hreply htok
  exact hfrom.userId_ne (hshows text htext)

theorem mem_presentedTexts_of_verify (h : verifyTokenStr req = some text) :
    text ∈ presentedTexts req := by
  unfold verifyTokenStr at h
  split at h
  · next t ht =>
    cases h
    split at ht
    · exact mem_presentedTexts (by decide) ht
    · cases ht
  · split at h
    · cases h
    · cases h
      exact mem_cons_self

theorem handleOauthToken_unissued (hu : u ≠ 0) (hgrants : NoGrant u s)
    (h : (handleOauthToken P cfg e.env e.req.toRequest).exec Server.perform s = some (a, s')) :
    Unissued u a s' := by
  have hused : ∀ code, ∀ ac ∈ (s.grants.oauthCodeMarkUsed code).codes, UInt64.ofNat ac.userId ≠
    u := by
    intro code ac hac
    obtain ⟨x, hx, heq | heq⟩ := mem_updateFirst hac
    · exact heq ▸ hgrants.codes x hx
    · rw [heq]
      exact hgrants.codes x hx
  have hissued : ∀ {uid : Nat} {user : User} {scope jkt tok}, UInt64.ofNat uid ≠ u →
      s.sys.store.userGetById uid = some user → IssuedFor P e.env s user.id scope jkt tok →
      UInt64.ofNat user.id ≠ u ∧ ∀ t ∈ [tok], t.userId ≠ u := by
    rintro uid user scope jkt tok hne huser ⟨args, hissue, hargs, -⟩
    rw [ofNat_id_of_get huser] at hargs ⊢
    refine ⟨hne, fun t ht => ?_⟩
    cases mem_singleton.mp ht
    exact userId_of_tokenIssue hissue (hargs ▸ hne)
  cases handleOauthToken_effect h with
  | refused => exact ⟨nofun, hgrants⟩
  | client args tok hissue huser =>
    refine ⟨fun t ht => ?_, hgrants⟩
    cases mem_singleton.mp ht
    exact userId_of_tokenIssue hissue (huser ▸ hu.symm)
  | codeSpent => exact ⟨nofun, ⟨hused _, hgrants.refreshTokens⟩⟩
  | code code redirectUri jkt ac user tok hpresents hget hok huser hactive hissue =>
    have hne := hgrants.codes ac (mem_of_find?_eq_some hget)
    obtain ⟨hid, htokens⟩ := hissued hne huser hissue
    refine ⟨htokens, ⟨hused _, fun rt hrt => ?_⟩⟩
    rcases mem_append.mp hrt with hrt | hrt
    · exact hgrants.refreshTokens rt hrt
    · cases mem_singleton.mp hrt
      exact hid
  | replayed token rt hpresents hget hrevoked =>
    refine ⟨nofun, ⟨hgrants.codes, fun rt hrt => ?_⟩⟩
    obtain ⟨x, hx, rfl⟩ := mem_map.mp hrt
    split
    · exact hgrants.refreshTokens x hx
    · exact hgrants.refreshTokens x hx
  | rotated token jkt rt user tok hpresents hget hfresh huser hissue =>
    have hne := hgrants.refreshTokens rt (mem_of_find?_eq_some hget)
    obtain ⟨hid, htokens⟩ := hissued hne huser hissue
    refine ⟨htokens, ⟨hgrants.codes, fun rt hrt => ?_⟩⟩
    rcases mem_append.mp hrt with hrt | hrt
    · obtain ⟨x, hx, heq | heq⟩ := mem_updateFirst hrt
      · exact heq ▸ hgrants.refreshTokens x hx
      · rw [heq]
        exact hgrants.refreshTokens x hx
    · cases mem_singleton.mp hrt
      exact hid

theorem handleOauthAuthorize_unissued (hid : UInt64.ofNat auth.1.id ≠ u) (hgrants : NoGrant u s)
    (h : (handleOauthAuthorize cfg e.env e.req auth).exec Server.perform s = some (a, s')) :
    Unissued u a s' := by
  rcases handleOauthAuthorize_effect h with ⟨status, message, rfl, rfl⟩ | ⟨_, _, location, -, rfl,
    rfl⟩
  · exact ⟨nofun, hgrants⟩
  · refine ⟨nofun, ⟨fun ac hac => ?_, hgrants.refreshTokens⟩⟩
    rcases mem_append.mp hac with hac | hac
    · exact hgrants.codes ac hac
    · cases mem_singleton.mp hac
      exact hid

/-! ## §3 One request -/

theorem handle_unissued {auth : Option AuthUser} {h : ApiHandler} (hu : u ≠ 0)
    (hh : handlerOf e.req = some h) (hshows : ShowsNone P u s e) (hfirst : ¬FirstFactor P cfg u s e)
    (hgrants : NoGrant u s) (hauth : ∀ x ∈ auth, UInt64.ofNat x.1.id ≠ u)
    (hexec : (h.handle P cfg e.env e.req auth).exec Server.perform s = some (a, s')) :
      Unissued u a s' := by
  have hsame := handle_exec hexec
  cases h with
  | login => exact handleLogin_unissued hh hgrants hfirst hexec
  | loginBySms => exact handleLoginBySms_unissued hh hgrants hfirst hexec
  | webauthnLogin => exact handleWebauthnLogin_unissued hh hgrants hfirst hexec
  | mfaVerify => exact handleMfaVerify_unissued hshows hgrants hexec
  | refresh =>
    refine accepting_unissued hshows hgrants (fun _ _ hreply htok => ?_) hexec
    obtain ⟨text, htext, hfrom⟩ := handleRefresh_tokens hreply htok
    exact ⟨text, mem_presentedTexts (by decide) htext, hfrom⟩
  | verify =>
    refine accepting_unissued hshows hgrants (fun _ _ hreply htok => ?_) hexec
    obtain ⟨text, htext, hfrom⟩ := handleVerify_tokens hreply htok
    exact ⟨text, mem_presentedTexts_of_verify htext, hfrom⟩
  | oauthToken => exact handleOauthToken_unissued hu hgrants hexec
  | oauthAuthorize =>
    cases auth with
    | none => cases hexec
    | some x => exact handleOauthAuthorize_unissued (hauth x rfl) hgrants hexec
  | _ =>
    refine ⟨fun tok htok => ?_, hgrants.of_grants ?_ ?_⟩
    · rw [hsame.2 rfl] at htok
      cases htok
    · exact hsame.1 .codes (by decide)
    · exact hsame.1 .refreshTokens (by decide)

/-- A request that shows no token of the user is not accepted as the user. -/
theorem ofNat_id_ne_of_authenticated (hshows : ShowsNone P u s e)
    (hauth : AuthenticatedAs P s e auth) : UInt64.ofNat auth.1.id ≠ u := by
  obtain ⟨user, tok⟩ := auth
  have hne := hshows _ mem_cons_self tok (authenticateRequest_ok hauth).1
  exact ofNat_id_of_token (authenticateRequest_ok hauth).2 ▸ hne

theorem serve_unissued (hu : u ≠ 0) (hshows : ShowsNone P u s e) (hfirst : ¬FirstFactor P cfg u s e)
    (hgrants : NoGrant u s) (hserve : s.serve P cfg e = some (a, s')) : Unissued u a s' := by
  cases serve_served hserve with
  | refused htokens hroute =>
    refine ⟨fun tok htok => ?_, hgrants⟩
    rw [htokens] at htok
    cases htok
  | unauthenticated _ route hroute hopen hexec =>
    exact handle_unissued hu (handlerOf_eq hroute) hshows hfirst hgrants (fun x hx => by cases hx)
      hexec
  | authenticated _ route auth hroute hneeds hauth hexec =>
    refine handle_unissued hu (handlerOf_eq hroute) hshows hfirst hgrants ?_ hexec
    rintro x ⟨⟩
    exact ofNat_id_ne_of_authenticated hshows hauth

/-! ## §4 Runs -/

/-- The server, and the tokens it has handed out since we look. -/
structure Watched where
  server : Server
  issued : List Token

/-- One request. -/
def Watched.step (P : Platform) (cfg : ServerConfig) (w : Watched) (e : HttpEvent) :
    Option Watched :=
  (w.server.serve P cfg e).map fun r => ⟨r.2, w.issued ++ r.1.tokens⟩

/-- The tokens of the user that the request shows were handed out since we look: nobody makes
their own, or brings one along. -/
def OwnTokensOnly (P : Platform) (u : UInt64) (w : Watched) (e : HttpEvent) : Prop :=
  ∀ text ∈ presentedTexts e.req.toRequest, ∀ tok,
    tokenVerify P.crypto w.server.tokens e.env.now text = some (.ok tok) → tok.userId = u →
    ∃ t ∈ w.issued, t.userId = u ∧ t.tokenStr = text

/-- Nothing of the user was handed out, and nothing is stored. -/
structure Watched.Without (u : UInt64) (w : Watched) : Prop where
  issued : ∀ tok ∈ w.issued, tok.userId ≠ u
  grants : NoGrant u w.server

theorem Watched.Without.showsNone {w : Watched} (h : w.Without u) (hown : OwnTokensOnly P u w e) :
    ShowsNone P u w.server e := by
  intro text htext tok htok hid
  obtain ⟨t, ht, hid', -⟩ := hown text htext tok htok hid
  exact h.issued t ht hid'

/-- Without a first factor of the user no run gets a token of the user, and no request is
accepted as the user. -/
theorem unissued_of_run (P : Platform) (cfg : ServerConfig) (u : UInt64) (hu : u ≠ 0) (s : Server)
    (hgrants : NoGrant u s) (es : List HttpEvent) (w : Watched)
    (hsteps : Along (Watched.step P cfg)
      (fun w e => OwnTokensOnly P u w e ∧ ¬FirstFactor P cfg u w.server e) es ⟨s, []⟩)
    (hrun : run (Watched.step P cfg) es ⟨s, []⟩ = some w) :
    (∀ tok ∈ w.issued, tok.userId ≠ u) ∧ ∀ e auth, OwnTokensOnly P u w e →
      AuthenticatedAs P w.server e auth → UInt64.ofNat auth.1.id ≠ u := by
  have hstep : ∀ (w : Watched) e w', w.Without u →
      (OwnTokensOnly P u w e ∧ ¬FirstFactor P cfg u w.server e) →
      Watched.step P cfg w e = some w' → w'.Without u := by
    rintro w e w' hw ⟨hown, hfirst⟩ hstep
    obtain ⟨⟨a, t⟩, hserve, rfl⟩ := Option.map_eq_some_iff.mp hstep
    have hun := serve_unissued hu (hw.showsNone hown) hfirst hw.grants hserve
    refine ⟨fun tok htok => ?_, hun.grants⟩
    rcases mem_append.mp htok with htok | htok
    · exact hw.issued tok htok
    · exact hun.tokens tok htok
  have hstart : Watched.Without u ⟨s, []⟩ := ⟨nofun, hgrants⟩
  have hw : w.Without u := invariant_of_run hstep hstart hsteps hrun
  exact ⟨hw.issued, fun e auth hown hauth => ofNat_id_ne_of_authenticated (hw.showsNone hown) hauth⟩

/-- A user with a second factor. -/
def guardedServer : Server :=
  sampleServer [{
    id := 1
    username := lit "alice"
    phone := []
    status := .active
    passwordHash := lit "pw"
    mfaEnabled := true
    mfaSecret := lit "JBSWY3DP" }]

def postJson (n : Nat) (path : String) (fields : List (String × Bytes)) : HttpEvent :=
  ⟨sampleMoment n,
    { jsonRequest fields with
      path := lit path, method := .post, queryParams := [], bodyText := [], bodyParsed := [] }⟩

/-- Somebody else's password. -/
def wrongPassword : HttpEvent :=
  postJson 1 "/api/v1/auth/login" [("username", lit "alice"), ("password", lit "guess")]

/-- A guess that fails. -/
theorem wrongPassword_unissued :
    ∃ w, run (Watched.step samplePlatform sampleConfig) [wrongPassword] ⟨guardedServer, []⟩ =
      some w ∧
      ∀ tok ∈ w.issued, tok.userId ≠ 1 := by
  have hrun :
    (run (Watched.step samplePlatform sampleConfig) [wrongPassword] ⟨guardedServer, []⟩).map
      (fun w => w.issued.length) = some 0 := by decide +kernel
  obtain ⟨w, hw, -⟩ := Option.map_eq_some_iff.mp hrun
  have hhandler : handlerOf wrongPassword.req = some .login := by decide +kernel
  have hown : OwnTokensOnly samplePlatform 1 ⟨guardedServer, []⟩ wrongPassword := by
    intro text htext tok htok
    cases mem_singleton.mp htext
    cases htok
  have hfirst : ¬FirstFactor samplePlatform sampleConfig 1 guardedServer wrongPassword := by
    rintro (⟨user, -, ⟨username, password, hname, hpassword, huser⟩, -⟩ | ⟨_, _, _, hh, -⟩ | ⟨_, hh,
      -⟩)
    · cases hname
      cases hpassword
      cases huser
    · rw [hhandler] at hh
      cases hh
    · rw [hhandler] at hh
      cases hh
  have hsteps : Along (Watched.step samplePlatform sampleConfig)
      (fun w e => OwnTokensOnly samplePlatform 1 w e ∧ ¬FirstFactor samplePlatform sampleConfig 1
        w.server e)
      [wrongPassword] ⟨guardedServer, []⟩ := ⟨⟨hown, hfirst⟩, fun _ _ => trivial⟩
  have hgrants : NoGrant 1 guardedServer := ⟨nofun, nofun⟩
  exact ⟨w, hw, (unissued_of_run _ _ 1 (by decide) _ hgrants _ w hsteps hw).1⟩

def passwordOnly : HttpEvent :=
  postJson 1 "/api/v1/auth/login" [("username", lit "alice"), ("password", lit "pw")]

/-- What the password alone gets. -/
def mfaToken : Bytes :=
  match guardedServer.serve samplePlatform sampleConfig passwordOnly with
  | some (.mfaRequired tok, _) => tok.tokenStr
  | _ => []

/-- The token between the two factors opens the routes, and can be exchanged for a pair of
full tokens. -/
theorem mfaToken_accepted :
    (∃ w, run (Watched.step samplePlatform sampleConfig)
      [passwordOnly, postJson 2 "/api/v1/auth/refresh" [("refresh_token", mfaToken)]]
        ⟨guardedServer, []⟩ = some w ∧
      w.issued.map (fun tok => (tok.userId, tok.scope)) = [(1, lit "mfa"), (1, []), (1, [])]) ∧
    ∃ auth, AuthenticatedAs samplePlatform guardedServer
      ⟨sampleMoment 2, { plainRequest .get "/api/v1/users" none with authToken := mfaToken }⟩ auth ∧
        auth.1.id = 1 := by
  constructor
  · exact exists_some_of_any (by decide +kernel) fun _ _ h => h
  · exact authenticatedAs_of_eq (by decide +kernel)

end SsoSystem
