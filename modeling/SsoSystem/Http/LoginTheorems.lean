/-
SsoSystem.Http.LoginTheorems — what the handlers that hand out tokens can do.

One inversion per handler: the answers it can end with, what each of them
rests on, and the state it leaves. Later results about these handlers start
from here and do not unfold them again.
-/
import SsoSystem.Http.Login
import SsoSystem.Http.OAuthTheorems
import SsoSystem.Token.VerifyTheorems

namespace SsoSystem

open CMem Handling Option Server

variable {P : Platform} {cfg : ServerConfig} {env : Moment} {s s' : Server} {a : Answer}

/-! ## §1 The helpers -/

variable {bad : Handling} {ok : Token → Handling} {message : String} {status : Nat} {phone : Bytes}
  {reply : Reply} {tok : Token}

/-- Issuing ends with a token, or goes on as the caller says. -/
theorem exec_issuing {args : IssueArgs} {draw : IssueEnv}
    (h : (issuing P args draw ok bad).exec Server.perform s = some (a, s')) :
    bad.exec Server.perform s = some (a, s') ∨
      ∃ tok, tokenIssue P.crypto s.tokens args draw = .ok tok ∧
        (ok tok).exec Server.perform s = some (a, s') := by
  simp only [issuing, Prog.exec, perform, auth] at h
  split at h
  · next tok htok => exact .inr ⟨tok, htok, h⟩
  · exact .inl h

/-- Verifying ends with the claims, or goes on as the caller says. -/
theorem exec_verifying {t : Bytes}
    (h : (verifying P env t ok bad).exec Server.perform s = some (a, s')) :
    bad.exec Server.perform s = some (a, s') ∨
      ∃ tok, tokenVerify P.crypto s.tokens env.now t = some (.ok tok) ∧
        (ok tok).exec Server.perform s = some (a, s') := by
  simp only [verifying, Prog.exec, perform, auth] at h
  split at h
  · cases h
  · next tok htok => exact .inr ⟨tok, htok, h⟩
  · exact .inl h

/-- The arguments of a token for a user, with their roles and groups of the moment. -/
def memberArgs (s : Server) (user : User) (scope : Option Bytes) (ttlMs : Int64)
    (jkt : Option Bytes) :
    IssueArgs :=
  loginArgs user (s.sys.store.getUserRoles user.id 16) (s.sys.store.getUserGroups user.id 16) scope
    ttlMs jkt

/-- The pair of tokens of a login. -/
structure IssuedPair (P : Platform) (env : Moment) (s : Server) (user : User) (jkt : Option Bytes)
    (access refresh : Token) : Prop where
  access : tokenIssue P.crypto s.tokens (memberArgs s user none 900000 jkt) env.draws.access =
    .ok access
  refresh : tokenIssue P.crypto s.tokens (memberArgs s user none 604800000 jkt) env.draws.refresh =
    .ok refresh

variable {user : User} {req : Request} {c : Crypto} {ctx : AuthContext} {now : Int64}
  {draws : Draws}

/-- Both tokens of a login are for the same user, with the same roles and groups. -/
theorem exec_issuePair {jkt : Option Bytes} {badAccess badRefresh : String}
    {k : Token → Token → Handling}
    (h : (issuePair P env user (s.sys.store.getUserRoles user.id 16) (s.sys.store.getUserGroups
      user.id 16) jkt badAccess badRefresh k).exec Server.perform s = some (a, s')) :
    (∃ message : String, a = .error 500 (lit message) ∧ s' = s) ∨
      ∃ access refresh, IssuedPair P env s user jkt access refresh ∧
        (k access refresh).exec Server.perform s = some (a, s') := by
  rcases exec_issuing h with hbad | ⟨access, haccess, h⟩
  · exact .inl ⟨badAccess, exec_fail hbad⟩
  · rcases exec_issuing h with hbad | ⟨refresh, hrefresh, h⟩
    · exact .inl ⟨badRefresh, exec_fail hbad⟩
    · exact .inr ⟨access, refresh, ⟨haccess, hrefresh⟩, h⟩

/-! ## §2 Password and second factor -/

/-- The request carries the name and the password of this user. -/
def PasswordRight (P : Platform) (cfg : ServerConfig) (env : Moment) (s : Server) (req : Request)
    (user : User) : Prop :=
  ∃ username password, reqJsonStrValue req (lit "username") = some username ∧
    reqJsonStrValue req (lit "password") = some password ∧
    userAuthenticate P cfg env.now (s.sys.store.userGetByName username) password = some user

/-- What `handle_login` can do. -/
inductive LoginEffect (P : Platform) (cfg : ServerConfig) (env : Moment) (req : Request)
    (s : Server) :
    Answer → Server → Prop where
  | refused (status : Nat) (message : Bytes) : LoginEffect P cfg env req s (.error status message) s
  | secondFactor (user : User) (tok : Token) (hpassword : PasswordRight P cfg env s req user)
      (hneeded : user.mfaEnabled = true ∨ 40 ≤ env.riskScore)
      (htok : tokenIssue P.crypto s.tokens (loginArgs user [] [] (some (lit "mfa")) 300000 none)
        env.draws.access = .ok tok) : LoginEffect P cfg env req s (.mfaRequired tok) s
  | loggedIn (user : User) (jkt : Bytes) (access refresh : Token)
      (hpassword : PasswordRight P cfg env s req user) (hmfa : user.mfaEnabled = false)
      (hpair : IssuedPair P env s user (some jkt) access refresh) :
      LoginEffect P cfg env req s (.loggedIn user access refresh)
        (s.registerSession (UInt64.ofNat user.id) access.jti)

/-- An error is one of the outcomes. -/
theorem LoginEffect.of_fail (h : (fail status message).exec Server.perform s = some (a, s')) :
    LoginEffect P cfg env req s a s' := by
  obtain ⟨rfl, rfl⟩ := exec_fail h
  exact .refused _ _

/-- A right password gives both tokens, or the short-lived token of the second step. -/
theorem passwordLogin_effect (hpassword : PasswordRight P cfg env s req user)
    (h : (passwordLogin P env req user).exec Server.perform s = some (a, s')) :
    LoginEffect P cfg env req s a s' := by
  unfold passwordLogin at h
  split at h
  · exact .of_fail h
  · split at h
    · exact .of_fail h
    · split at h
      · exact .of_fail h
      · next jkt _ =>
        split at h
        · next hneeded =>
          rcases exec_issuing h with hbad | ⟨tok, htok, h⟩
          · cases hbad
          · cases h
            exact .secondFactor user tok hpassword hneeded htok
        · next hneeded =>
          rcases exec_issuePair h with ⟨message, rfl, rfl⟩ | ⟨access, refresh, hpair, h⟩
          · exact .refused _ _
          · cases h
            exact .loggedIn user jkt access refresh hpassword (by simpa using (not_or.mp hneeded).1)
              hpair

/-- Every outcome of the password login. -/
theorem handleLogin_effect (h : (handleLogin P cfg env req).exec Server.perform s = some (a, s')) :
    LoginEffect P cfg env req s a s' := by
  unfold handleLogin at h
  split at h
  · exact .of_fail h
  · split at h
    · exact .of_fail h
    · split at h
      · next username password hname hpw =>
        simp only [Prog.exec, perform] at h
        split at h
        · exact .of_fail h
        · next user huser => exact passwordLogin_effect ⟨username, password, hname, hpw, huser⟩ h
      · exact .of_fail h

/-- The request carries a token text that reads as this token, and a valid one-time code for
the user of the token. -/
def SecondFactorRight (P : Platform) (env : Moment) (s : Server) (req : Request) (user : User) :
    Prop :=
  ∃ text code tok, reqJsonStrValue req (lit "mfa_token") = some text ∧
    reqJsonStrValue req (lit "code") = some code ∧
    tokenVerify P.crypto s.tokens env.now text = some (.ok tok) ∧
    s.sys.store.userGetById tok.userId.toNat = some user ∧
    mfaVerifyTotp P env.unixTime user.mfaSecret code = true

/-- What `handle_mfa_verify` can do. -/
inductive MfaEffect (P : Platform) (env : Moment) (req : Request) (s : Server) : Answer → Server →
    Prop where
  | refused (status : Nat) (message : Bytes) : MfaEffect P env req s (.error status message) s
  | loggedIn (user : User) (access refresh : Token) (hright : SecondFactorRight P env s req user)
      (hpair : IssuedPair P env s user none access refresh) :
      MfaEffect P env req s (.loggedIn user access refresh) s

theorem MfaEffect.of_fail (h : (fail status message).exec Server.perform s = some (a, s')) :
    MfaEffect P env req s a s' := by
  obtain ⟨rfl, rfl⟩ := exec_fail h
  exact .refused _ _

/-- Every outcome of the second step. -/
theorem handleMfaVerify_effect
    (h : (handleMfaVerify P env req).exec Server.perform s = some (a, s')) :
    MfaEffect P env req s a s' := by
  unfold handleMfaVerify at h
  split at h
  · exact .of_fail h
  · split at h
    · next text code htext hcode =>
      rcases exec_verifying h with hbad | ⟨tok, htok, h⟩
      · exact .of_fail hbad
      · simp only [Prog.exec, perform] at h
        split at h
        · exact .of_fail h
        · next user huser =>
          split at h
          · exact .of_fail h
          · next htotp =>
            have hright : SecondFactorRight P env s req user :=
              ⟨text, code, tok, htext, hcode, htok, huser, by simpa using htotp⟩
            rcases exec_issuePair h with ⟨message, rfl, rfl⟩ | ⟨access, refresh, hpair, h⟩
            · exact .refused _ _
            · cases h
              exact .loggedIn user access refresh hright hpair
    · exact .of_fail h

/-! ## §3 SMS and WebAuthn -/

/-- The request carries a phone number and the code that was sent to it. -/
def SmsCodeRight (env : Moment) (s : Server) (req : Request) (phone : Bytes) : Prop :=
  ∃ code expected, reqJsonStrValue req (lit "phone") = some phone ∧
    reqJsonStrValue req (lit "code") = some code ∧
    s.grants.getSmsCode env.now phone = .ok expected ∧ strEq code expected = true

/-- The server after the code of this number was deleted, where the number may have got a
user. -/
inductive PhoneUser (env : Moment) (phone : Bytes) (s : Server) : User → Server → Prop where
  | found (user : User) (huser : s.sys.store.userGetByPhone phone = some user) :
      PhoneUser env phone s user { s with grants := s.grants.deleteSmsCode phone }
  | created (id : Nat) (sys : System) (hnone : s.sys.store.userGetByPhone phone = none)
      (hsys : (Mutation.userCreate (phoneUser env phone)).run s.sys = (.ok, sys))
      (hid : id = s.sys.store.nextUid) :
      PhoneUser env phone s { phoneUser env phone with id }
        { s with sys, grants := s.grants.deleteSmsCode phone }

/-- What `handle_login_by_sms` can do. -/
inductive SmsEffect (P : Platform) (env : Moment) (req : Request) (s : Server) : Answer → Server →
    Prop where
  | untouched : SmsEffect P env req s .untouched s
  | refused (status : Nat) (message : Bytes) : SmsEffect P env req s (.error status message) s
  | spent (status : Nat) (message phone : Bytes) (hright : SmsCodeRight env s req phone) :
      SmsEffect P env req s (.error status message)
        { s with grants := s.grants.deleteSmsCode phone }
  | refusedUser (status : Nat) (message phone : Bytes) (user : User) (t : Server)
      (hright : SmsCodeRight env s req phone) (huser : PhoneUser env phone s user t) :
      SmsEffect P env req s (.error status message) t
  | loggedIn (phone : Bytes) (user : User) (t : Server) (tok : Token)
      (hright : SmsCodeRight env s req phone) (huser : PhoneUser env phone s user t)
      (htok : tokenIssue P.crypto t.tokens (memberArgs t user none 3600000 none) env.draws.access =
        .ok tok) : SmsEffect P env req s (.smsLoggedIn user tok) t

/-- The user of the phone, stored or just registered, is logged in if active. -/
theorem smsUser_effect {t : Server} (hright : SmsCodeRight env s req phone)
    (huser : PhoneUser env phone s user t)
    (h : (if user.status ≠ .active then fail 403 "Account disabled or error" else
      withMemberships user.id fun roles groups =>
        issuing P (loginArgs user roles groups none 3600000 none) env.draws.access
          (fun tok => .ret (.smsLoggedIn user tok)) (fail 500 "Failed to issue token")).exec
      Server.perform t = some (a, s')) :
    SmsEffect P env req s a s' := by
  split at h
  · obtain ⟨rfl, rfl⟩ := exec_fail h
    exact .refusedUser _ _ phone user _ hright huser
  · rcases exec_issuing h with hbad | ⟨tok, htok, h⟩
    · obtain ⟨rfl, rfl⟩ := exec_fail hbad
      exact .refusedUser _ _ phone user _ hright huser
    · cases h
      exact .loggedIn phone user _ tok hright huser htok

/-- The code is deleted before the user is looked up. -/
theorem smsLogin_effect (hright : SmsCodeRight env s req phone)
    (h : (smsLogin P env phone).exec Server.perform
    { s with grants := s.grants.deleteSmsCode phone } = some (a, s')) :
    SmsEffect P env req s a s' := by
  simp only [smsLogin, withPhoneUser, Prog.exec, perform] at h
  split at h
  · next user hfound => exact smsUser_effect hright (.found user hfound) h
  · next hnone =>
    simp only [Prog.exec, perform, manage] at h
    split at h
    · next id hid =>
      split at hid
      · next sys hsys =>
        cases hid
        simp only [hsys] at h
        exact smsUser_effect hright (.created _ sys hnone hsys rfl) h
      · cases hid
    · next err hid =>
      split at hid
      · cases hid
      · next err' sys' hne hsys =>
        simp only [hsys] at h
        obtain ⟨rfl, rfl⟩ := exec_fail h
        exact .spent _ _ phone hright

/-- Every outcome of the login by SMS. -/
theorem handleLoginBySms_effect
    (h : (handleLoginBySms P env req).exec Server.perform s = some (a, s')) :
    SmsEffect P env req s a s' := by
  have hfail : ∀ {status : Nat} {message : String},
      (fail status message).exec perform s = some (a, s') → SmsEffect P env req s a s' := by
    intro status message h
    obtain ⟨rfl, rfl⟩ := exec_fail h
    exact .refused _ _
  unfold handleLoginBySms at h
  split at h
  · exact hfail h
  · split at h
    · exact hfail h
    · split at h
      · next phone code hphone hcode =>
        split at h
        · exact hfail h
        · simp only [Prog.exec, perform] at h
          split at h
          · exact hfail h
          · next expected hexpected =>
            split at h
            · exact hfail h
            · next hsame =>
              exact smsLogin_effect ⟨code, expected, hphone, hcode, hexpected, by simpa using hsame⟩
                h
      · cases h
        exact .untouched

/-- The request carries an assertion of this user's authenticator. -/
def AssertionRight (P : Platform) (s : Server) (req : Request) (user : User) : Prop :=
  ∃ username challenge authData clientData signature pubKey,
    reqJsonStrValue req (lit "username") = some username ∧
    s.sys.store.userGetByName username = some user ∧ user.status = .active ∧
    reqJsonStrValue req (lit "challenge") = some challenge ∧
    reqJsonStrValue req (lit "authenticator_data") = some authData ∧
    reqJsonStrValue req (lit "client_data_json") = some clientData ∧
    reqJsonStrValue req (lit "signature") = some signature ∧
    webauthnPublicKey P.vendor user = some pubKey ∧
    P.webauthnLoginVerify authData clientData signature challenge (expectedOrigin req) pubKey = true

/-- What `handle_webauthn_login` can do. -/
inductive WebauthnEffect (P : Platform) (env : Moment) (req : Request) (s : Server) :
    Answer → Server → Prop where
  | refused (status : Nat) (message : Bytes) : WebauthnEffect P env req s (.error status message) s
  | loggedIn (user : User) (access refresh : Token) (proof : Option Bytes)
      (hright : AssertionRight P s req user)
      (haccess : tokenIssue P.crypto s.tokens (memberArgs s user (some (lit "*")) 0 proof)
        env.draws.access =
        .ok access)
      (hrefresh : tokenIssue P.crypto s.tokens
      (memberArgs s user (some (lit "refresh")) 604800000 none)
        env.draws.refresh = .ok refresh) :
      WebauthnEffect P env req s (.webauthnLoggedIn access refresh proof.isSome) s

/-- A right assertion gives both tokens. -/
theorem webauthnTokens_effect (hright : AssertionRight P s req user)
    (h : (webauthnTokens P env req user).exec Server.perform s = some (a, s')) :
    WebauthnEffect P env req s a s' := by
  rcases exec_issuing h with hbad | ⟨access, haccess, h⟩
  · cases hbad
  · rcases exec_issuing h with hbad | ⟨refresh, hrefresh, h⟩
    · cases hbad
    · cases h
      exact .loggedIn user access refresh _ hright haccess hrefresh

/-- Every outcome of the WebAuthn login. -/
theorem handleWebauthnLogin_effect
    (h : (handleWebauthnLogin P cfg env req).exec Server.perform s = some (a, s')) :
    WebauthnEffect P env req s a s' := by
  have hfail : ∀ {status : Nat} {message : String},
      (fail status message).exec perform s = some (a, s') → WebauthnEffect P env req s a s' := by
    intro status message h
    obtain ⟨rfl, rfl⟩ := exec_fail h
    exact .refused _ _
  unfold handleWebauthnLogin at h
  split at h
  · exact hfail h
  · split at h
    · next username challenge sig authData clientData signature hname hchallenge hsig hauth hclient
        hsignature =>
      split at h
      · exact hfail h
      · simp only [Prog.exec, perform] at h
        split at h
        · exact hfail h
        · next user huser =>
          split at h
          · exact hfail h
          · next hactive =>
            split at h
            · exact hfail h
            · split at h
              · exact hfail h
              · next pubKey hkey =>
                split at h
                · next hverify =>
                  exact webauthnTokens_effect ⟨username, challenge, authData, clientData, signature,
                    pubKey,
                    hname, huser, not_not.mp hactive, hchallenge, hauth, hclient, hsignature, hkey,
                      hverify⟩ h
                · exact hfail h
    · exact hfail h

/-! ## §4 Refresh and silent rotation -/

/-- A handler that reads the authentication state changes nothing. -/
theorem exec_accepting {handler : AuthContext → Option Reply}
    (h : (accepting handler).exec Server.perform s = some (a, s')) :
    ∃ reply, handler s.auth = some reply ∧ a = .accepted reply ∧ s' = s := by
  simp only [accepting, Prog.exec, perform] at h
  split at h
  · cases h
  · next reply hreply =>
    cases h
    exact ⟨reply, hreply, rfl, rfl⟩

/-- The token of `handle_refresh` or `handle_verify`, read and not revoked, with its user. -/
structure TokenGood (c : Crypto) (ctx : AuthContext) (now : Int64) (text : Bytes) (tok : Token)
    (user : User) :
    Prop where
  reads : tokenVerify c ctx.tokens now text = some (.ok tok)
  unrevoked : ctx.tokenIsRevoked now tok.jti = false
  user : ctx.userGetById tok.userId = some user

/-- The token was issued for the user of a good one, and without a key to bind it to. -/
def DerivedFrom (c : Crypto) (ctx : AuthContext) (now : Int64) (text : Bytes) (tok : Token) :
    Prop :=
  ∃ old user args draw, TokenGood c ctx now text old user ∧ args.userId = UInt64.ofNat user.id ∧
    args.dpopJkt = none ∧ tokenIssue c ctx.tokens args draw = .ok tok

/-- A refreshed token derives from the token in the body. -/
theorem handleRefresh_tokens
    (h : handleRefresh c ctx now draws req = some reply)
    (htok : tok ∈ (Answer.accepted reply).tokens) :
    ∃ text, reqJsonStrValue req (lit "refresh_token") = some text ∧
      DerivedFrom c ctx now text tok := by
  unfold handleRefresh at h
  split at h
  · cases h; cases htok
  · split at h
    · cases h; cases htok
    · next text htext =>
      obtain ⟨res, hres, rfl⟩ := map_eq_some_iff.mp h
      split at htok
      · cases htok
      · next old =>
        split at htok
        · cases htok
        · next hrevoked =>
          split at htok
          · cases htok
          · next user huser =>
            have hgood : TokenGood c ctx now text old user := ⟨hres, by simpa using hrevoked, huser⟩
            split at htok
            · next haccess hrefresh =>
              rcases List.mem_pair.mp htok with rfl | rfl
              · exact ⟨text, htext, old, user, _, _, hgood, rfl, rfl, haccess⟩
              · exact ⟨text, htext, old, user, _, _, hgood, rfl, rfl, hrefresh⟩
            · cases htok

/-- Silent rotation derives the new token from the one verified. -/
theorem handleVerify_tokens {dpop : DpopVerifier}
    (h : handleVerify c dpop ctx now draws req = some reply)
    (htok : tok ∈ (Answer.accepted reply).tokens) :
    ∃ text, verifyTokenStr req = some text ∧ DerivedFrom c ctx now text tok := by
  unfold handleVerify at h
  split at h
  · cases h; cases htok
  · next text htext =>
    obtain ⟨res, hres, rfl⟩ := map_eq_some_iff.mp h
    split at htok
    · cases htok
    · next old =>
      split at htok
      · cases htok
      · next hrevoked =>
        split at htok
        · cases htok
        · split at htok
          · cases htok
          · next user huser =>
            have hrotated : silentRotation c ctx now draws.rotation user old = some tok :=
              mem_toList.mp htok
            unfold silentRotation at hrotated
            dsimp only at hrotated
            split at hrotated
            · exact ⟨text, htext, old, user, _, _, ⟨hres, by simpa using hrevoked, huser⟩, rfl, rfl,
                ok_of_toOption hrotated⟩
            · cases hrotated

/-! ## §5 Bound tokens -/

/-- A token made of another one without a login: by `token_refresh`, by the silent rotation of
`handle_verify` or by `handle_refresh`, or by several of them in turn. -/
inductive Derives (c : Crypto) : Token → Token → Prop
  | refresh {m : TokenManager} {old new : Token} {ttlMs : Int64} {env : IssueEnv}
    (h : tokenRefresh c m old ttlMs env = .ok new) : Derives c old new
  | verify {dpop : DpopVerifier} {ctx : AuthContext} {now : Int64} {draws : Draws} {req : Request}
    {text : Bytes} {old new : Token} {user : User} {expiresAt : Int64}
    (hshown : verifyTokenStr req = some text)
    (hread : tokenVerify c ctx.tokens now text = some (.ok old))
    (h : handleVerify c dpop ctx now draws req = some (.verified user expiresAt (some new))) :
    Derives c old new
  | handleRefresh {ctx : AuthContext} {now : Int64} {draws : Draws} {req : Request} {text : Bytes}
    {old new access refresh : Token}
    (hshown : reqJsonStrValue req (lit "refresh_token") = some text)
    (hread : tokenVerify c ctx.tokens now text = some (.ok old))
    (h : handleRefresh c ctx now draws req = some (.refreshed access refresh))
    (hnew : new ∈ [access, refresh]) : Derives c old new
  | trans {old mid new : Token} (h : Derives c old mid) (h' : Derives c mid new) : Derives c old new

/-- No derived token is bound to a key. -/
theorem DerivedFrom.jkt {text : Bytes} (h : DerivedFrom c ctx now text tok) : tok.jkt = [] := by
  obtain ⟨old, user, args, draw, -, -, hjkt, hissue⟩ := h
  rw [(tokenIssue_claims hissue).2.2, hjkt]
  rfl

/-- `token_refresh` passes no key thumbprint on. -/
theorem jkt_of_derives {old new : Token} (h : Derives c old new) : new.jkt = [] := by
  induction h with
  | refresh h => exact (tokenIssue_claims h).2.2
  | verify _ _ h =>
    obtain ⟨text, -, hfrom⟩ := handleVerify_tokens h (List.mem_singleton.mpr rfl)
    exact hfrom.jkt
  | handleRefresh _ _ h hnew =>
    obtain ⟨text, -, hfrom⟩ := handleRefresh_tokens h hnew
    exact hfrom.jkt
  | trans _ _ _ ih => exact ih

/-- A derived token is bound to the thumbprint of the token it was made of only if that was
bound to none. -/
theorem binding_survives_iff {c : Crypto} {old new : Token} (h : Derives c old new) :
    (old.jkt ≠ [] → new.jkt = old.jkt) ↔ old.jkt = [] := by
  rw [jkt_of_derives h]
  constructor
  · intro hsame
    by_contra hbound
    exact hbound (hsame hbound).symm
  · intro hfree hbound
    exact absurd hfree hbound

/-- A token of user 7 that is bound to the thumbprint `thumb`. -/
def boundToken : Token := { Token.zero with userId := 7, jkt := lit "thumb" }

theorem exists_refresh_boundToken :
    ∃ new, tokenRefresh onesCrypto freshManager boundToken 60000 freshEnv = .ok new :=
  tokenIssue_ascii onesCrypto freshEnv (TokenManager.started_spec (.init tokenManagerInit_fresh)).1
    nofun nofun

/-- So a bound token can be exchanged for a bearer token. -/
theorem boundToken_not_survives : ∃ new, Derives onesCrypto boundToken new ∧
    ¬ (boundToken.jkt ≠ [] → new.jkt = boundToken.jkt) := by
  obtain ⟨new, hnew⟩ := exists_refresh_boundToken
  exact ⟨new, .refresh hnew, mt (binding_survives_iff (.refresh hnew)).mp (by decide)⟩

/-- The refreshed token of a bound one is a plain bearer token. -/
theorem boundToken_unbound : ∃ new,
    tokenRefresh onesCrypto freshManager boundToken 60000 freshEnv = .ok new ∧
      boundToken.jkt = lit "thumb" ∧ new.jkt = [] := by
  obtain ⟨new, hnew⟩ := exists_refresh_boundToken
  exact ⟨new, hnew, rfl, jkt_of_derives (.refresh hnew)⟩

end SsoSystem
