/-
SsoSystem.Http.SessionCap — how many tokens of a user are good at a time.

Section 4.5 of docs/design.md allows a user three sessions. The ring of
`token_register_session` sees to it, but only for what it is told of, and of
all handlers only `handle_login` tells it anything: the jti of its access
token. The refresh token of the same login, which `authenticate_request`
accepts as well, and the tokens of all other handlers are not registered.

So the cap holds in the runs in which every request that hands out tokens to the
user finds room for as many as its endpoint hands out (`sessionCap_of_roomy`).
-/
import Mathlib.Data.List.Perm.Subperm
import SsoSystem.Http.AcceptanceTheorems
import SsoSystem.Http.LoginTheorems
import SsoSystem.Token.SessionTheorems

namespace SsoSystem

open CMem Run List Option TokenManager

/-! ## §1 Runs -/

/-- The endpoints that hand out tokens to users. -/
inductive SessionEndpoint where
  | login | mfaVerify | loginBySms | webauthnLogin | refresh | verify
  deriving DecidableEq, Repr

namespace SessionEndpoint

def handler (P : Platform) (cfg : ServerConfig) (env : Moment) (req : Request) :
    SessionEndpoint → Handling
  | .login => handleLogin P cfg env req
  | .mfaVerify => handleMfaVerify P env req
  | .loginBySms => handleLoginBySms P env req
  | .webauthnLogin => handleWebauthnLogin P cfg env req
  | .refresh => accepting fun ctx => handleRefresh P.crypto ctx env.now env.draws req
  | .verify => accepting fun ctx => handleVerify P.crypto P.dpop ctx env.now env.draws req

/-- The token of an answer whose jti was registered. -/
def registers : SessionEndpoint → Answer → List Token
  | .login, .loggedIn _ access _ => [access]
  | _, _ => []

/-- The other tokens of an answer. -/
def looses : SessionEndpoint → Answer → List Token
  | .login, .loggedIn _ _ second => [second]
  | _, a => a.tokens

/-- How many tokens an endpoint registers at most. -/
def registersMost : SessionEndpoint → Nat
  | .login => 1
  | _ => 0

/-- How many other tokens it hands out at most. -/
def loosesMost : SessionEndpoint → Nat
  | .login | .loginBySms | .verify => 1
  | .mfaVerify | .webauthnLogin | .refresh => 2

/-- The request proves to be the user's, or made with a good token of theirs. -/
def Serves (P : Platform) (cfg : ServerConfig) (env : Moment) (s : Server) (req : Request)
    (u : UInt64) : SessionEndpoint → Prop
  | .login => ∃ user, PasswordRight P cfg env s req user ∧ UInt64.ofNat user.id = u
  | .mfaVerify => ∃ user, SecondFactorRight P env s req user ∧ UInt64.ofNat user.id = u
  | .loginBySms => ∃ phone, SmsCodeRight env s req phone ∧
    UInt64.ofNat ((s.sys.store.userGetByPhone phone).elim s.sys.store.nextUid User.id) = u
  | .webauthnLogin => ∃ user, AssertionRight P s req user ∧ UInt64.ofNat user.id = u
  | .refresh => ∃ text tok user, reqJsonStrValue req (lit "refresh_token") = some text ∧
    TokenGood P.crypto s.auth env.now text tok user ∧ UInt64.ofNat user.id = u
  | .verify => ∃ text tok user, verifyTokenStr req = some text ∧
    TokenGood P.crypto s.auth env.now text tok user ∧ UInt64.ofNat user.id = u

end SessionEndpoint

/-- A request, or a change of whatever the token manager does not hold. -/
inductive SessionEvent where
  | request (endpoint : SessionEndpoint) (env : Moment) (req : Request)
  | other (sys : System) (grants : Grants)

/-- The server, the time of the last request, and the tokens it has handed out. -/
structure SessionRun where
  server : Server
  now : Int64
  registered : List Token
  loose : List Token

/-- How many of these tokens are tokens of `u` that have not expired. -/
def unexpired (toks : List Token) (u : UInt64) (now : Int64) : Nat :=
  toks.countP fun tok => tok.userId == u && decide (now ≤ tok.expiresAt)

namespace SessionRun

variable (P : Platform) (cfg : ServerConfig)

def start (server : Server) (now : Int64) : SessionRun where
  server := server
  now := now
  registered := []
  loose := []

variable (r : SessionRun) (u : UInt64)

def answered (endpoint : SessionEndpoint) (env : Moment) (out : Answer × Server) : SessionRun where
  server := out.2
  now := env.now
  registered := endpoint.registers out.1 ++ r.registered
  loose := endpoint.looses out.1 ++ r.loose

def step : SessionEvent → Option SessionRun
  | .request endpoint env req =>
    ((endpoint.handler P cfg env req).exec Server.perform r.server).map (r.answered endpoint env)
  | .other sys grants => some { r with server := { r.server with sys, grants } }

/-- A token that was handed out to `u` and that `authenticate_request` accepts at this time, in
some request. -/
def Accepted (now : Int64) (tok : Token) : Prop :=
  tok ∈ r.registered ++ r.loose ∧ tok.userId = u ∧
    ∃ req draws, req.authToken = tok.tokenStr ∧
      Endpoint.authenticateRequest.accepts P.crypto P.dpop r.server.auth now draws req = some true

/-- From the last request on, at most three tokens of `u` are accepted. -/
def AtMostThree : Prop :=
  ∀ (now : Int64) (toks : List Token), r.now ≤ now → toks.Nodup →
    (∀ tok ∈ toks, r.Accepted P u now tok) → toks.length ≤ 3

/-- Time does not go back; and a request of `u` finds room for the tokens of its endpoint: the
loose tokens of `u` that have not expired, the registered ones, of which the ring keeps three,
and the new ones. -/
def Roomy (u : UInt64) (r : SessionRun) : SessionEvent → Prop
  | .request endpoint env req => r.now ≤ env.now ∧
    (endpoint.Serves P cfg env r.server req u →
      unexpired r.loose u env.now + endpoint.loosesMost +
        min 3 (unexpired r.registered u env.now + endpoint.registersMost) ≤ 3)
  | .other _ _ => True

/-- The random generator gives no jti of an earlier login again. -/
def FreshJtis (e : SessionEvent) : Prop :=
  ∀ r', r.step P cfg e = some r' → (r.registered.map Token.jti).Nodup →
    (r'.registered.map Token.jti).Nodup

end SessionRun

/-! ## §2 What a request hands out -/

/-- A token that some manager in use has issued. -/
def IssuedToken (c : Crypto) (tok : Token) : Prop :=
  ∃ m k args draw, m.KeysOk k ∧ tokenIssue c m args draw = .ok tok

/-- An issued jti fits the ring's entries. -/
theorem IssuedToken.strlcpy_jti {c : Crypto} {tok : Token} (h : IssuedToken c tok) :
    strlcpy 64 tok.jti = tok.jti := by
  obtain ⟨m, k, args, draw, hk, hissue⟩ := h
  have hjti : tok.jti = (issueClaims m args draw).jti := by rw [tokenIssue_ok hk hissue]
  have hlen := length_jti_le m args draw
  rw [hjti]
  refine strlcpy_eq_self (fun hnul => ?_) (by omega)
  exact absurd (all_eq_true.mp (plainAscii_jti m args draw) 0 hnul) (by decide)

/-- What a request does to the token manager, how many tokens it hands out, and where they come
from. -/
structure RequestEffect (P : Platform) (cfg : ServerConfig) (env : Moment) (req : Request)
    (endpoint : SessionEndpoint) (s : Server) (a : Answer) (s' : Server) : Prop where
  manager : (endpoint.registers a = [] ∧ s'.tokens = s.tokens) ∨
    ∃ uid access, endpoint.registers a = [access] ∧
      (∀ k, s.tokens.KeysOk k → access.userId = uid) ∧
      s'.tokens = (s.registerSession uid access.jti).tokens
  issued : ∀ tok ∈ endpoint.registers a ++ endpoint.looses a, ∃ args draw,
    tokenIssue P.crypto s.tokens args draw = .ok tok ∧
      endpoint.Serves P cfg env s req args.userId
  registers : (endpoint.registers a).length ≤ endpoint.registersMost
  looses : (endpoint.looses a).length ≤ endpoint.loosesMost

section Effects

variable {P : Platform} {cfg : ServerConfig} {env : Moment} {req : Request} {s s' : Server}
  {a : Answer}

/-- An answer without registered tokens, whose tokens the manager has issued. -/
theorem RequestEffect.of_loose {endpoint : SessionEndpoint} (hreg : endpoint.registers a = [])
    (hloose : endpoint.looses a = a.tokens) (hmanager : s'.tokens = s.tokens)
    (hmost : a.tokens.length ≤ endpoint.loosesMost)
    (hissued : ∀ tok ∈ a.tokens, ∃ args draw, tokenIssue P.crypto s.tokens args draw = .ok tok ∧
      endpoint.Serves P cfg env s req args.userId) :
    RequestEffect P cfg env req endpoint s a s' := by
  refine ⟨.inl ⟨hreg, hmanager⟩, ?_, by rw [hreg]; exact Nat.zero_le _, by rwa [hloose]⟩
  rw [hreg, hloose]
  exact hissued

/-- Registering the user of a phone issues nothing. -/
theorem tokens_phoneUser {phone : Bytes} {user : User} (h : PhoneUser env phone s user s') :
    s'.tokens = s.tokens := by
  cases h <;> rfl

theorem id_phoneUser {phone : Bytes} {user : User} (h : PhoneUser env phone s user s') :
    (s.sys.store.userGetByPhone phone).elim s.sys.store.nextUid User.id = user.id := by
  cases h with
  | found user huser => rw [huser, elim_some]
  | created id sys hnone hsys hid => rw [hnone, elim_none, hid]

/-- The password login: the access token is registered. -/
theorem login_effect (h : LoginEffect P cfg env req s a s') :
    RequestEffect P cfg env req .login s a s' := by
  cases h with
  | refused status message => exact .of_loose rfl rfl rfl (Nat.zero_le _) nofun
  | secondFactor user tok hpassword _ htok =>
    refine .of_loose rfl rfl rfl (Nat.le_refl 1) fun t ht => ?_
    obtain rfl := mem_singleton.mp ht
    exact ⟨_, _, htok, user, hpassword, rfl⟩
  | loggedIn user jkt access refresh hpassword _ hpair =>
    refine ⟨.inr ⟨_, access, rfl, fun k hk => ?_, rfl⟩, fun t ht => ?_, Nat.le_refl 1,
      Nat.le_refl 1⟩
    · rw [tokenIssue_ok hk hpair.access]
      rfl
    · rcases mem_cons.mp ht with rfl | ht
      · exact ⟨_, _, hpair.access, user, hpassword, rfl⟩
      · obtain rfl := mem_singleton.mp ht
        exact ⟨_, _, hpair.refresh, user, hpassword, rfl⟩

/-- The second step registers nothing. -/
theorem mfaVerify_effect (h : MfaEffect P env req s a s') :
    RequestEffect P cfg env req .mfaVerify s a s' := by
  cases h with
  | refused status message => exact .of_loose rfl rfl rfl (Nat.zero_le _) nofun
  | loggedIn user access refresh hright hpair =>
    refine .of_loose rfl rfl rfl (Nat.le_refl 2) fun t ht => ?_
    rcases mem_cons.mp ht with rfl | ht
    · exact ⟨_, _, hpair.access, user, hright, rfl⟩
    · obtain rfl := mem_singleton.mp ht
      exact ⟨_, _, hpair.refresh, user, hright, rfl⟩

/-- Nor does the login by SMS. -/
theorem loginBySms_effect (h : SmsEffect P env req s a s') :
    RequestEffect P cfg env req .loginBySms s a s' := by
  cases h with
  | untouched | refused | spent => exact .of_loose rfl rfl rfl (Nat.zero_le _) nofun
  | refusedUser status message phone user t hright huser =>
    exact .of_loose rfl rfl (tokens_phoneUser huser) (Nat.zero_le _) nofun
  | loggedIn phone user t tok hright huser htok =>
    refine .of_loose rfl rfl (tokens_phoneUser huser) (Nat.le_refl 1) fun x hx => ?_
    obtain rfl := mem_singleton.mp hx
    exact ⟨_, _, tokens_phoneUser huser ▸ htok, phone, hright, by rw [id_phoneUser huser]; rfl⟩

/-- Nor does the WebAuthn login. -/
theorem webauthnLogin_effect (h : WebauthnEffect P env req s a s') :
    RequestEffect P cfg env req .webauthnLogin s a s' := by
  cases h with
  | refused status message => exact .of_loose rfl rfl rfl (Nat.zero_le _) nofun
  | loggedIn user access refresh proof hright haccess hrefresh =>
    refine .of_loose rfl rfl rfl (Nat.le_refl 2) fun t ht => ?_
    rcases mem_cons.mp ht with rfl | ht
    · exact ⟨_, _, haccess, user, hright, rfl⟩
    · obtain rfl := mem_singleton.mp ht
      exact ⟨_, _, hrefresh, user, hright, rfl⟩

theorem length_tokens_accepted (reply : Reply) : (Answer.accepted reply).tokens.length ≤ 2 := by
  cases reply with
  | verified _ _ rotated => cases rotated <;> simp [Answer.tokens]
  | _ => simp [Answer.tokens]

theorem refresh_effect (h : (accepting fun ctx => handleRefresh P.crypto ctx env.now env.draws
      req).exec Server.perform s = some (a, s')) : RequestEffect P cfg env req .refresh s a s' := by
  obtain ⟨reply, hreply, rfl, rfl⟩ := exec_accepting h
  refine .of_loose rfl rfl rfl (length_tokens_accepted reply) fun t ht => ?_
  obtain ⟨text, htext, old, user, args, draw, hgood, huser, -, hissue⟩ :=
    handleRefresh_tokens hreply ht
  exact ⟨args, draw, hissue, text, old, user, htext, hgood, huser.symm⟩

theorem length_tokens_verify {ctx : AuthContext} {now : Int64} {draws : Draws} {reply : Reply}
    (h : handleVerify P.crypto P.dpop ctx now draws req = some reply) :
    (Answer.accepted reply).tokens.length ≤ 1 := by
  unfold handleVerify at h
  split at h
  · cases h
    exact Nat.zero_le _
  · obtain ⟨res, -, rfl⟩ := map_eq_some_iff.mp h
    split
    · exact Nat.zero_le _
    · split
      · exact Nat.zero_le _
      · split
        · exact Nat.zero_le _
        · split
          · exact Nat.zero_le _
          · exact Option.length_toList_le

theorem verify_effect (h : (accepting fun ctx => handleVerify P.crypto P.dpop ctx env.now env.draws
      req).exec Server.perform s = some (a, s')) : RequestEffect P cfg env req .verify s a s' := by
  obtain ⟨reply, hreply, rfl, rfl⟩ := exec_accepting h
  refine .of_loose rfl rfl rfl (length_tokens_verify hreply) fun t ht => ?_
  obtain ⟨text, htext, old, user, args, draw, hgood, huser, -, hissue⟩ :=
    handleVerify_tokens hreply ht
  exact ⟨args, draw, hissue, text, old, user, htext, hgood, huser.symm⟩

/-- What each endpoint hands out and registers. -/
theorem request_effect (endpoint : SessionEndpoint)
    (h : (endpoint.handler P cfg env req).exec Server.perform s = some (a, s')) :
    RequestEffect P cfg env req endpoint s a s' := by
  cases endpoint with
  | login => exact login_effect (handleLogin_effect h)
  | mfaVerify => exact mfaVerify_effect (handleMfaVerify_effect h)
  | loginBySms => exact loginBySms_effect (handleLoginBySms_effect h)
  | webauthnLogin => exact webauthnLogin_effect (handleWebauthnLogin_effect h)
  | refresh => exact refresh_effect h
  | verify => exact verify_effect h

end Effects

/-! ### Counting -/

section Counting

variable {new old : List Token} {u : UInt64} {now now' : Int64}

/-- Time only takes tokens away. -/
theorem unexpired_mono (hle : now ≤ now') (toks : List Token) :
    unexpired toks u now' ≤ unexpired toks u now := by
  refine countP_mono_left fun tok _ htok => ?_
  simp only [Bool.and_eq_true, beq_iff_eq, decide_eq_true_eq] at htok ⊢
  exact ⟨htok.1, Int64.le_trans hle htok.2⟩

theorem unexpired_append_le : unexpired (new ++ old) u now ≤ new.length + unexpired old u now := by
  rw [unexpired, countP_append]
  exact Nat.add_le_add_right countP_le_length _

/-- Tokens of other users do not count. -/
theorem unexpired_append_of_ne (hne : ∀ tok ∈ new, tok.userId ≠ u) :
    unexpired (new ++ old) u now = unexpired old u now := by
  rw [unexpired, countP_append, countP_eq_zero.mpr fun tok htok => ?_, Nat.zero_add]
  · rfl
  · simp [hne tok htok]

end Counting

/-! ## §3 The cap -/

/-- What a run keeps. -/
structure SessionRun.Inv (P : Platform) (u : UInt64) (r : SessionRun) : Prop where
  keys : r.server.tokens.Reachable
  rings : r.server.tokens.RingsOk
  issued : ∀ tok ∈ r.registered ++ r.loose, IssuedToken P.crypto tok
  held : ∀ tok ∈ r.registered,
    tok.jti ∈ r.server.tokens.ring tok.userId ∨ tok.jti ∈ r.server.tokens.jtis
  distinct : (r.registered.map Token.jti).Nodup
  room : unexpired r.loose u r.now + min 3 (unexpired r.registered u r.now) ≤ 3

section Cap

variable {P : Platform} {cfg : ServerConfig} {u : UInt64} {r r' : SessionRun}

/-- No token at the start. -/
theorem SessionRun.Inv.start {server : Server} (hm : server.tokens.Started) (now : Int64) :
    (SessionRun.start server now).Inv P u where
  keys := .start hm
  rings := by
    intro track htrack
    rw [SessionRun.start, (started_spec hm).2.2] at htrack
    cases htrack
  issued := nofun
  held := nofun
  distinct := nodup_nil
  room := Nat.zero_le _

theorem registerSession_tokens (s : Server) (uid : UInt64) (jti : Bytes) :
    ((s.registerSession uid jti).tokens.ring = (s.tokens.registerSession uid jti).1.ring) ∧
      (∀ x, x ∈ s.tokens.jtis ∨ (s.tokens.registerSession uid jti).2 = some x ∧ strlcpy 64 x = x →
        x ∈ (s.registerSession uid jti).tokens.jtis) ∧
      (s.tokens.RingsOk → (s.registerSession uid jti).tokens.RingsOk) ∧
      (s.tokens.Reachable → (s.registerSession uid jti).tokens.Reachable) := by
  obtain ⟨tracks, htracks⟩ := registerSession_fst s.tokens uid jti
  have hjtis : (s.tokens.registerSession uid jti).1.jtis = s.tokens.jtis := by rw [htracks]
  cases hout : (s.tokens.registerSession uid jti).2 with
  | none =>
    have htokens : (s.registerSession uid jti).tokens = (s.tokens.registerSession uid jti).1 := by
      simp only [Server.registerSession, hout, elim_none]
    rw [htokens, hjtis]
    refine ⟨rfl, fun x hx => ?_, fun h => h.registerSession uid jti, fun h =>
      .registerSession uid jti h⟩
    rcases hx with hx | ⟨hx, -⟩
    · exact hx
    · cases hx
  | some oldest =>
    have htokens : (s.registerSession uid jti).tokens =
        (s.tokens.registerSession uid jti).1.revoke oldest := by
      simp only [Server.registerSession, hout, elim_some]
    rw [htokens]
    refine ⟨rfl, fun x hx => ?_, fun h => h.registerSession uid jti,
      fun h => .revoke oldest (.registerSession uid jti h)⟩
    show x ∈ (s.tokens.registerSession uid jti).1.jtis ++ [strlcpy 64 oldest]
    rw [hjtis]
    rcases hx with hx | ⟨hx, hself⟩
    · exact mem_append_left _ hx
    · cases hx
      rw [hself]
      exact mem_append_right _ (mem_singleton_self _)

/-- A registered token is in the ring or revoked. -/
theorem SessionRun.Inv.held_registerSession (hr : r.Inv P u) {access : Token}
    (haccess : IssuedToken P.crypto access) : ∀ tok ∈ access :: r.registered,
      tok.jti ∈ (r.server.registerSession access.userId access.jti).tokens.ring tok.userId ∨
        tok.jti ∈ (r.server.registerSession access.userId access.jti).tokens.jtis := by
  obtain ⟨hring, hjtis, -, -⟩ := registerSession_tokens r.server access.userId access.jti
  intro tok htok
  rw [hring]
  rcases mem_cons.mp htok with rfl | htok
  · have hmem := hr.rings.mem_ring_registerSession tok.userId tok.jti
    rw [haccess.strlcpy_jti] at hmem
    exact .inl hmem
  · have hself := (hr.issued tok (mem_append_left _ htok)).strlcpy_jti
    rcases hr.held tok htok with hin | hrevoked
    · by_cases huser : tok.userId = access.userId
      · rw [huser] at hin ⊢
        rcases mem_ring_registerSession_of_mem _ access.userId access.jti hin with h | h
        · exact .inl h
        · exact .inr (hjtis _ (.inr ⟨h, hself⟩))
      · rw [ring_registerSession_of_ne _ huser]
        exact .inl hin
    · exact .inr (hjtis _ (.inl hrevoked))

/-- A request of the user has found room for its tokens, and another's hands out none to them. -/
theorem SessionRun.Inv.room_answered {endpoint : SessionEndpoint} {env : Moment} {req : Request}
    {a : Answer} {s' : Server} {k : UInt32} (hr : r.Inv P u) (hk : r.server.tokens.KeysOk k)
    (heffect : RequestEffect P cfg env req endpoint r.server a s')
    (hroomy : r.Roomy P cfg u (.request endpoint env req)) :
    unexpired (r.answered endpoint env (a, s')).loose u env.now +
      min 3 (unexpired (r.answered endpoint env (a, s')).registered u env.now) ≤ 3 := by
  obtain ⟨hnow, hserves⟩ := hroomy
  simp only [SessionRun.answered]
  by_cases hmine : endpoint.Serves P cfg env r.server req u
  · have hroom := hserves hmine
    have hloose := @unexpired_append_le (endpoint.looses a) r.loose u env.now
    have hreg := @unexpired_append_le (endpoint.registers a) r.registered u env.now
    have := heffect.registers
    have := heffect.looses
    omega
  · have hother : ∀ tok ∈ endpoint.registers a ++ endpoint.looses a, tok.userId ≠ u := by
      rintro tok htok rfl
      obtain ⟨args, draw, hissue, hmine'⟩ := heffect.issued tok htok
      rw [tokenIssue_ok hk hissue] at hmine
      exact hmine hmine'
    rw [unexpired_append_of_ne fun tok h => hother tok (mem_append_right _ h),
      unexpired_append_of_ne fun tok h => hother tok (mem_append_left _ h)]
    have hloose := @unexpired_mono u _ _ hnow r.loose
    have hreg := @unexpired_mono u _ _ hnow r.registered
    have := hr.room
    omega

/-- Every request for which there is room keeps the invariant. -/
theorem SessionRun.Inv.step {e : SessionEvent} (hr : r.Inv P u) (hroomy : r.Roomy P cfg u e)
    (hfresh : r.FreshJtis P cfg e) (hstep : r.step P cfg e = some r') : r'.Inv P u := by
  cases e with
  | other sys grants =>
    cases hstep
    exact ⟨hr.keys, hr.rings, hr.issued, hr.held, hr.distinct, hr.room⟩
  | request endpoint env req =>
    have hdistinct := hfresh r' hstep hr.distinct
    obtain ⟨⟨a, s'⟩, hexec, rfl⟩ := map_eq_some_iff.mp hstep
    have heffect := request_effect endpoint hexec
    obtain ⟨k, hk⟩ := keysOk_of_reachable hr.keys
    have hroom := hr.room_answered hk heffect hroomy
    obtain ⟨hmanager, hissued, -, -⟩ := heffect
    have hnew : ∀ tok ∈ endpoint.registers a ++ endpoint.looses a, IssuedToken P.crypto tok := by
      intro tok htok
      obtain ⟨args, draw, hissue, -⟩ := hissued tok htok
      exact ⟨_, k, args, draw, hk, hissue⟩
    have hall : ∀ tok ∈ (r.answered endpoint env (a, s')).registered ++
        (r.answered endpoint env (a, s')).loose, IssuedToken P.crypto tok := by
      intro tok htok
      simp only [SessionRun.answered, mem_append] at htok
      rcases htok with (h | h) | h | h
      · exact hnew tok (mem_append_left _ h)
      · exact hr.issued tok (mem_append_left _ h)
      · exact hnew tok (mem_append_right _ h)
      · exact hr.issued tok (mem_append_right _ h)
    rcases hmanager with ⟨hnone, htokens⟩ | ⟨uid, access, hreg, huid, htokens⟩
    · have hserver : (r.answered endpoint env (a, s')).server.tokens = r.server.tokens := htokens
      have hheld : (r.answered endpoint env (a, s')).registered = r.registered := by
        simp only [SessionRun.answered, hnone, nil_append]
      exact ⟨hserver ▸ hr.keys, hserver ▸ hr.rings, hall, by rw [hserver, hheld]; exact hr.held,
        hdistinct, hroom⟩
    · obtain rfl := huid k hk
      obtain ⟨-, -, hrings, hreach⟩ := registerSession_tokens r.server access.userId access.jti
      have hserver : (r.answered endpoint env (a, s')).server.tokens =
          (r.server.registerSession access.userId access.jti).tokens := htokens
      have hheld : (r.answered endpoint env (a, s')).registered = access :: r.registered := by
        simp only [SessionRun.answered, hreg, cons_append, nil_append]
      refine ⟨hserver ▸ hreach hr.keys, hserver ▸ hrings hr.rings, hall, ?_, hdistinct, hroom⟩
      rw [hserver, hheld]
      exact hr.held_registerSession (hnew access (by simp [hreg]))

variable {now : Int64} {toks : List Token}

/-- An accepted token has not expired, and its jti is not revoked. -/
theorem SessionRun.Inv.of_accepted (hr : r.Inv P u) {tok : Token}
    (h : r.Accepted P u now tok) : now ≤ tok.expiresAt ∧ tok.jti ∉ r.server.tokens.jtis := by
  obtain ⟨hmem, -, req, draws, hreq, hacc⟩ := h
  obtain ⟨k, hk⟩ := keysOk_of_reachable hr.keys
  obtain ⟨out, hverify, hrevoked, -⟩ := accepts_true (e := .authenticateRequest) hk hreq hacc
  obtain ⟨m, k', args, draw, hk', hissue⟩ := hr.issued tok hmem
  obtain ⟨hjti, -, -⟩ := headOf_tokenVerify_issued hk' hissue hverify
  refine ⟨(expiry_tokenVerify_issued hk' hissue hverify).2, fun hin => ?_⟩
  have hself : cstr tok.jti = tok.jti := by
    refine cstr_eq_self fun hnul => ?_
    rw [tokenIssue_ok hk' hissue] at hnul
    exact absurd (all_eq_true.mp (plainAscii_jti m args draw) 0 hnul) (by decide)
  rw [hjti, AuthContext.tokenIsRevoked, Bool.or_eq_false_iff] at hrevoked
  have hlisted : r.server.tokens.isRevoked tok.jti = true := by
    rw [isRevoked, hself]
    exact contains_iff_mem.mpr hin
  exact absurd hlisted (by simpa [Server.auth] using hrevoked.1)

/-- Of the registered tokens as many are accepted as have not expired, and at most three. -/
theorem SessionRun.Inv.length_registered (hr : r.Inv P u) (hnow : r.now ≤ now)
    (hnodup : toks.Nodup) (hmem : ∀ tok ∈ toks, tok ∈ r.registered)
    (hacc : ∀ tok ∈ toks, r.Accepted P u now tok) :
    toks.length ≤ min 3 (unexpired r.registered u r.now) := by
  refine Nat.le_min.mpr ⟨?_, ?_⟩
  · have hjtis : (toks.map Token.jti).Nodup :=
      hnodup.map_on fun x hx y hy heq => inj_on_of_nodup_map hr.distinct (hmem x hx) (hmem y hy) heq
    have hring : toks.map Token.jti ⊆ r.server.tokens.ring u := by
      intro jti hjti
      obtain ⟨tok, htok, rfl⟩ := mem_map.mp hjti
      have huser := (hacc tok htok).2.1
      exact huser ▸ (hr.held tok (hmem tok htok)).resolve_right (hr.of_accepted (hacc tok htok)).2
    calc toks.length = (toks.map Token.jti).length := (length_map Token.jti).symm
      _ ≤ (r.server.tokens.ring u).length := (subperm_of_subset hjtis hring).length_le
      _ ≤ 3 := hr.rings.length_ring u
  · rw [unexpired, countP_eq_length_filter]
    refine (subperm_of_subset hnodup fun tok htok => ?_).length_le
    have hlive := Int64.le_trans hnow (hr.of_accepted (hacc tok htok)).1
    exact mem_filter.mpr ⟨hmem tok htok, by simp [(hacc tok htok).2.1, hlive]⟩

/-- The tokens that are not registered are counted apart. -/
theorem SessionRun.Inv.length_loose (hr : r.Inv P u) (hnow : r.now ≤ now)
    (hnodup : toks.Nodup) (hmem : ∀ tok ∈ toks, tok ∈ r.loose)
    (hacc : ∀ tok ∈ toks, r.Accepted P u now tok) : toks.length ≤ unexpired r.loose u r.now := by
  rw [unexpired, countP_eq_length_filter]
  refine (subperm_of_subset hnodup fun tok htok => ?_).length_le
  have hlive := Int64.le_trans hnow (hr.of_accepted (hacc tok htok)).1
  exact mem_filter.mpr ⟨hmem tok htok, by simp [(hacc tok htok).2.1, hlive]⟩

/-- The invariant bounds what is accepted. -/
theorem SessionRun.Inv.atMostThree (hr : r.Inv P u) : r.AtMostThree P u := by
  classical
  intro now toks hnow hnodup hacc
  have hregistered :=
    hr.length_registered hnow (hnodup.filter fun tok => decide (tok ∈ r.registered))
    (fun tok htok => of_decide_eq_true (mem_filter.mp htok).2)
    (fun tok htok => hacc tok (mem_filter.mp htok).1)
  have hloose := hr.length_loose hnow (hnodup.filter fun tok => !decide (tok ∈ r.registered))
    (fun tok htok => by
      obtain ⟨hin, hnot⟩ := mem_filter.mp htok
      exact (mem_append.mp (hacc tok hin).1).resolve_left (by simpa using hnot))
    (fun tok htok => hacc tok (mem_filter.mp htok).1)
  have hsplit := length_eq_length_filter_add (l := toks) fun tok => decide (tok ∈ r.registered)
  have hroom := hr.room
  omega

end Cap

/-- In every run whose requests leave room, at most three tokens of the user are accepted. -/
theorem sessionCap_of_roomy (P : Platform) (cfg : ServerConfig) (u : UInt64) (server : Server)
    (hstart : server.tokens.Started) (now : Int64) (es : List SessionEvent) (r : SessionRun)
    (hfresh : Along (SessionRun.step P cfg) (SessionRun.FreshJtis P cfg) es (.start server now))
    (hroomy : Along (SessionRun.step P cfg) (SessionRun.Roomy P cfg u) es (.start server now))
    (hrun : run (SessionRun.step P cfg) es (.start server now) = some r) : r.AtMostThree P u := by
  have hr : r.Inv P u :=
    invariant_of_run (fun _ _ _ hs hcond hstep => hs.step hcond.1 hcond.2 hstep)
    (.start hstart now) (hroomy.and hfresh) hrun
  exact hr.atMostThree

/-! ### One login and two -/

/-- A user with a password. -/
def adaUser : User :=
  { id := 1, username := lit "ada", phone := [], status := .active, passwordHash := lit "pw" }

/-- The `n`-th login of this user. -/
def adaLogin (n : Nat) : SessionEvent :=
  .request .login (sampleMoment n) (jsonRequest [("username", lit "ada"), ("password", lit "pw")])

theorem started_sampleServer (users : List User) : (sampleServer users).tokens.Started :=
  .init tokenManagerInit_fresh

/-- The two conditions on a step, whoever its request is from. -/
def SessionRun.roomy (P : Platform) (cfg : ServerConfig) (u : UInt64) (r : SessionRun)
    (e : SessionEvent) : Bool :=
  (r.step P cfg e).all (fun r' => decide (r'.registered.map Token.jti).Nodup) &&
    match e with
    | .request endpoint env _ => decide (r.now ≤ env.now) &&
      decide (unexpired r.loose u env.now + endpoint.loosesMost +
        min 3 (unexpired r.registered u env.now + endpoint.registersMost) ≤ 3)
    | .other _ _ => true

theorem SessionRun.roomy_spec {P : Platform} {cfg : ServerConfig} {u : UInt64} (r : SessionRun)
    (e : SessionEvent) (h : r.roomy P cfg u e = true) :
    r.FreshJtis P cfg e ∧ r.Roomy P cfg u e := by
  obtain ⟨hfresh, hroom⟩ := Bool.and_eq_true_iff.mp h
  refine ⟨fun r' hr' _ => ?_, ?_⟩
  · rw [hr', Option.all_some, decide_eq_true_eq] at hfresh
    exact hfresh
  · cases e with
    | request endpoint env req =>
      simp only [Bool.and_eq_true, decide_eq_true_eq] at hroom
      exact ⟨hroom.1, fun _ => hroom.2⟩
    | other => trivial

/-- A login, and another one when the tokens of the first have expired. -/
theorem twoWeeks_capped : ∃ r, run (SessionRun.step samplePlatform sampleConfig)
      [adaLogin 1, adaLogin 700000] (.start (sampleServer [adaUser]) 0) = some r ∧
    r.registered.length + r.loose.length = 4 ∧ r.AtMostThree samplePlatform 1 := by
  have hroomy : Along (SessionRun.step samplePlatform sampleConfig)
      (fun r e => r.roomy samplePlatform sampleConfig 1 e = true) [adaLogin 1, adaLogin 700000]
      (.start (sampleServer [adaUser]) 0) := by
    decide +kernel
  refine exists_some_of_any (P := fun r => r.registered.length + r.loose.length = 4)
    (by decide +kernel) fun r hrun hcount => ⟨hcount, ?_⟩
  exact sessionCap_of_roomy samplePlatform sampleConfig 1 (sampleServer [adaUser])
    (started_sampleServer _) 0 _ r (hroomy.mono fun r e h => (r.roomy_spec e h).1)
    (hroomy.mono fun r e h => (r.roomy_spec e h).2) hrun

/-- Two logins hand out four tokens, and all of them are accepted. -/
theorem twoLogins_exceed : ∃ r, run (SessionRun.step samplePlatform sampleConfig)
    [adaLogin 1, adaLogin 2]
      (.start (sampleServer [adaUser]) 0) = some r ∧ ¬ r.AtMostThree samplePlatform 1 := by
  refine exists_some_of_any (P := fun r => (r.registered ++ r.loose).length = 4 ∧ r.now ≤ 2000 ∧
    ((r.registered ++ r.loose).map Token.tokenStr).Nodup ∧
    ∀ tok ∈ r.registered ++ r.loose, tok.userId = 1 ∧
      Endpoint.authenticateRequest.accepts samplePlatform.crypto samplePlatform.dpop r.server.auth
        2000
        (sampleMoment 2).draws (presenting tok.tokenStr) = some true) (by decide +kernel) ?_
  rintro r - ⟨hlength, hnow, hdistinct, hall⟩ hcap
  have hthree := hcap 2000 (r.registered ++ r.loose) hnow hdistinct.of_map fun tok htok =>
    ⟨htok, (hall tok htok).1, presenting tok.tokenStr, (sampleMoment 2).draws, rfl,
      (hall tok htok).2⟩
  omega

end SsoSystem
