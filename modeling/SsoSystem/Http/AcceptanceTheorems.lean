/-
SsoSystem.Http.AcceptanceTheorems — where the five acceptance paths agree.

All five ask `token_verify` and the revocation list; two of them check a DPoP
proof; about the user each asks something else. That is all that tells them
apart (`accepts_eq`). So on a token that verifies and is not revoked they
agree exactly when every question about the user is answered with yes
(`pathsAgree_iff`).
-/
import SsoSystem.Http.Acceptance
import SsoSystem.Token.RotationTheorems

namespace SsoSystem

open CMem Run List Option Function

/-! ## §1 What each path asks -/

/-- What the path asks about the user of a token. -/
def Endpoint.userOk (ctx : AuthContext) (tok : Token) : Endpoint → Bool
  | .authenticateRequest =>
    (ctx.userGetById tok.userId).any fun user =>
      !decide (tok.nonce < ctx.tokens.getNonce (UInt64.ofNat user.id))
  | .handleVerify => (ctx.userGetById tok.userId).isSome
  | .handleSessionCheck => (ctx.userGetById tok.userId).any fun user => user.status == .active
  | .handleRefresh => (ctx.userGetById tok.userId).isSome
  | .handleOauthIntrospect => true

/-- `Endpoint.DpopPasses`, as the endpoint computes it. -/
def Endpoint.dpopOk (dpop : DpopVerifier) (req : Request) (tok : Token) : Endpoint → Bool
  | .authenticateRequest => authenticateDpop dpop req tok
  | .handleVerify => (verifyDpop dpop req tok).isNone
  | _ => true

variable {tok : Token} {c : Crypto} {es : List AuthEvent} {r : AuthRun} {t : Bytes}

theorem Endpoint.dpopOk_iff {dpop : DpopVerifier} {req : Request} (e : Endpoint) :
    e.dpopOk dpop req tok = true ↔ e.DpopPasses dpop req tok := by
  cases e <;> simp [Endpoint.dpopOk, Endpoint.DpopPasses]

/-- The decision of a path on the result of `token_verify`. -/
def Endpoint.decides (dpop : DpopVerifier) (ctx : AuthContext) (now : Int64) (req : Request)
    (e : Endpoint) : Except SsoError Token → Bool
  | .error _ => false
  | .ok tok => !ctx.tokenIsRevoked now tok.jti && e.dpopOk dpop req tok && e.userOk ctx tok

section Paths

variable {c : Crypto} {dpop : DpopVerifier} {ctx : AuthContext} {now : Int64} {draws : Draws}
  {req : Request} {t : Bytes}

theorem tokenVerify_empty {m : TokenManager} (h : cstr t = []) :
    tokenVerify c m now t = some (.error .tokenInvalid) := by
  rw [tokenVerify, h]
  rfl

/-- A path that refuses bad and revoked tokens decides by its two checks of the others. -/
theorem map_decides {β : Type} {f : Except SsoError Token → β} {accepts : β → Bool} {e : Endpoint}
    {r : Option (Except SsoError Token)} (herror : ∀ err, accepts (f (.error err)) = false)
    (hok : ∀ tok, accepts (f (.ok tok)) =
      (!ctx.tokenIsRevoked now tok.jti && e.dpopOk dpop req tok && e.userOk ctx tok)) :
    (r.map f).map accepts = r.map (e.decides dpop ctx now req) := by
  rw [Option.map_map]
  refine Option.map_congr fun res _ => ?_
  cases res with
  | error err => exact herror err
  | ok tok => exact hok tok

theorem authenticateRequest_eq :
    (authenticateRequest c dpop ctx now req).map Except.isOk =
      (tokenVerify c ctx.tokens now req.authToken).map
        (Endpoint.decides dpop ctx now req .authenticateRequest) := by
  unfold authenticateRequest
  split
  · next hempty => rw [tokenVerify_empty hempty]; rfl
  · refine map_decides (fun _ => rfl) fun tok => ?_
    simp only [Endpoint.userOk, Endpoint.dpopOk]
    cases ctx.tokenIsRevoked now tok.jti with
    | true => rfl
    | false =>
      cases authenticateDpop dpop req tok with
      | false => rfl
      | true =>
        cases ctx.userGetById tok.userId with
        | none => rfl
        | some user =>
          by_cases hnonce : tok.nonce < ctx.tokens.getNonce (UInt64.ofNat user.id) <;>
            simp [hnonce, Except.isOk, Except.toBool]

theorem handleVerify_eq (ht : verifyTokenStr req = some t) :
    (handleVerify c dpop ctx now draws req).map Reply.accepting =
      (tokenVerify c ctx.tokens now t).map (Endpoint.decides dpop ctx now req .handleVerify) := by
  unfold handleVerify
  rw [ht]
  refine map_decides (fun _ => rfl) fun tok => ?_
  simp only [Endpoint.userOk, Endpoint.dpopOk]
  cases ctx.tokenIsRevoked now tok.jti with
  | true => rfl
  | false =>
    cases verifyDpop dpop req tok with
    | some message => rfl
    | none => cases ctx.userGetById tok.userId <;> rfl

theorem handleSessionCheck_eq :
    (handleSessionCheck c ctx now req).map Reply.accepting =
      (tokenVerify c ctx.tokens now req.authToken).map
        (Endpoint.decides dpop ctx now req .handleSessionCheck) := by
  unfold handleSessionCheck
  split
  · next hempty => rw [tokenVerify_empty hempty]; rfl
  · refine map_decides (fun _ => rfl) fun tok => ?_
    simp only [Endpoint.userOk, Endpoint.dpopOk]
    cases ctx.tokenIsRevoked now tok.jti with
    | true => rfl
    | false =>
      cases ctx.userGetById tok.userId with
      | none => rfl
      | some user => cases hstatus : user.status <;> simp [hstatus, Reply.accepting]

variable {k : UInt32} {e : Endpoint}

/-- With the keys of a manager in use, the tokens of a refresh are always issued. -/
theorem tokenIssue_refreshArgs (hk : ctx.tokens.KeysOk k) (user : User) (old : Token)
    (ttlMs : Int64) (env : IssueEnv) :
    ∃ tok, tokenIssue c ctx.tokens (refreshArgs user old ttlMs) env = .ok tok :=
  tokenIssue_ascii c env hk nofun nofun

theorem handleRefresh_eq (hk : ctx.tokens.KeysOk k) (hbody : req.hasBody = true)
    (ht : reqJsonStrValue req (lit "refresh_token") = some t) :
    (handleRefresh c ctx now draws req).map Reply.accepting =
      (tokenVerify c ctx.tokens now t).map (Endpoint.decides dpop ctx now req .handleRefresh) := by
  unfold handleRefresh
  rw [hbody, ht]
  simp only [Bool.not_true, Bool.false_eq_true, if_false, Option.map_map]
  refine Option.map_congr fun res _ => ?_
  cases res with
  | error err => rfl
  | ok old =>
    simp only [Function.comp_apply, Endpoint.decides, Endpoint.userOk, Endpoint.dpopOk]
    cases ctx.tokenIsRevoked now old.jti with
    | true => rfl
    | false =>
      cases ctx.userGetById old.userId with
      | none => rfl
      | some user =>
        obtain ⟨access, haccess⟩ := tokenIssue_refreshArgs (c := c) hk user old 900000 draws.access
        obtain ⟨refresh, hrefresh⟩ :=
          tokenIssue_refreshArgs (c := c) hk user old 604800000 draws.refresh
        simp [haccess, hrefresh, Reply.accepting]

theorem handleOauthIntrospect_eq (hbody : req.hasBody = true)
    (ht : reqJsonStrValue req (lit "token") = some t) :
    (handleOauthIntrospect c ctx now req).map Reply.accepting =
      (tokenVerify c ctx.tokens now t).map
        (Endpoint.decides dpop ctx now req .handleOauthIntrospect) := by
  unfold handleOauthIntrospect
  rw [hbody, ht]
  simp only [Bool.not_true, Bool.false_eq_true, if_false, Option.map_map]
  refine Option.map_congr fun res _ => ?_
  cases res <;> simp [Endpoint.decides, Endpoint.userOk, Endpoint.dpopOk, Reply.accepting]

/-- The paths differ in the DPoP check and in what they ask about the user. -/
theorem accepts_eq (hk : ctx.tokens.KeysOk k) (ht : e.Presents t req) :
    e.accepts c dpop ctx now draws req =
      (tokenVerify c ctx.tokens now t).map (e.decides dpop ctx now req) := by
  cases e with
  | authenticateRequest =>
    obtain rfl : req.authToken = t := ht
    exact authenticateRequest_eq
  | handleVerify => exact handleVerify_eq ht
  | handleSessionCheck =>
    obtain rfl : req.authToken = t := ht
    exact handleSessionCheck_eq
  | handleRefresh => exact handleRefresh_eq hk ht.1 ht.2
  | handleOauthIntrospect => exact handleOauthIntrospect_eq ht.1 ht.2

theorem accepts_true (hk : ctx.tokens.KeysOk k) (ht : e.Presents t req)
    (h : e.accepts c dpop ctx now draws req = some true) :
    ∃ tok, tokenVerify c ctx.tokens now t = some (.ok tok) ∧
      ctx.tokenIsRevoked now tok.jti = false ∧ e.userOk ctx tok = true := by
  rw [accepts_eq hk ht, map_eq_some_iff] at h
  obtain ⟨res, hres, hdecides⟩ := h
  cases res with
  | error err => cases hdecides
  | ok tok =>
    simp only [Endpoint.decides, Bool.and_eq_true, Bool.not_eq_eq_eq_not, Bool.not_true] at hdecides
    exact ⟨tok, hres, hdecides.1.1, hdecides.2⟩

theorem authenticateRequest_ok {user : User} {tok : Token}
    (h : authenticateRequest c dpop ctx now req = some (.ok (user, tok))) :
    tokenVerify c ctx.tokens now req.authToken = some (.ok tok) ∧
      ctx.userGetById tok.userId = some user := by
  unfold authenticateRequest at h
  split at h
  · cases h
  · obtain ⟨res, hres, h⟩ := map_eq_some_iff.mp h
    split at h
    · cases h
    · split at h
      · cases h
      · split at h
        · cases h
        · split at h
          · cases h
          · next huser =>
            split at h
            · cases h
            · cases h
              exact ⟨hres, huser⟩

end Paths

/-! ## §2 Runs -/

theorem AuthRun.reachable_step {r r' : AuthRun} {e : AuthEvent}
    (hr : r.ctx.tokens.Reachable) (hstep : r.step c e = some r') : r'.ctx.tokens.Reachable := by
  have hstore : ∀ res, (r.withStore res).ctx.tokens = r.ctx.tokens := by
    rintro (_ | _) <;> rfl
  cases e with
  | issue args env =>
    simp only [AuthRun.step] at hstep
    split at hstep <;> cases hstep <;> exact hr
  | rotate secret =>
    simp only [AuthRun.step] at hstep
    split at hstep <;> cases hstep
    · next mgr hmgr => exact .rotate hr hmgr
    · exact hr
  | logout jti expiresAt => cases hstep; exact .revoke jti hr
  | logoutAll userId => cases hstep; exact .setNonce _ _ hr
  | userCreate user | userUpdate user | userDelete id =>
    cases hstep
    rw [hstore]
    exact hr

theorem AuthRun.keysOk_run {m : TokenManager}
    (hm : m.Started) (hrun : run (AuthRun.step c) es (AuthRun.start m) = some r) :
    ∃ k, r.ctx.tokens.KeysOk k := by
  have hreach : r.ctx.tokens.Reachable :=
    @invariant_of_steps _ _ _ _ _ _ (fun r : AuthRun => r.ctx.tokens.Reachable)
      (fun _ _ _ hr hstep => AuthRun.reachable_step hr hstep) (.start hm) hrun
  exact TokenManager.keysOk_of_reachable hreach

/-! ## §3 Agreement -/

/-- The paths agree about the token text `t` in this state of a run: they come to one
decision, and the text of a login that was logged out everywhere since, or of
a user who is not active, is accepted on none. -/
structure PathsAgree (c : Crypto) (r : AuthRun) (now : Int64) (t : Bytes) : Prop where
  agree : ∃ d, ∀ (e : Endpoint) dpop draws req, e.Presents t req →
    (∀ tok, tokenVerify c r.ctx.tokens now t = some (.ok tok) → e.DpopPasses dpop req tok) →
    e.accepts c dpop r.ctx now draws req = some d
  loggedOut : ∀ l ∈ r.logins, l.loggedOut = true → l.tok.tokenStr = t →
    ∀ (e : Endpoint) dpop draws req, e.Presents t req →
      e.accepts c dpop r.ctx now draws req ≠ some true
  disabled : ∀ tok user, tokenVerify c r.ctx.tokens now t = some (.ok tok) →
    r.ctx.userGetById tok.userId = some user → user.status ≠ .active →
    ∀ (e : Endpoint) dpop draws req, e.Presents t req →
      e.accepts c dpop r.ctx now draws req ≠ some true

/-- The user of a token is there and active, the token is not older than their nonce, and
they have not logged out everywhere since. -/
structure AuthRun.Current (r : AuthRun) (t : Bytes) (tok : Token) (user : User) : Prop where
  present : r.ctx.userGetById tok.userId = some user
  active : user.status = .active
  nonce : r.ctx.tokens.getNonce (UInt64.ofNat user.id) ≤ tok.nonce
  login : ∀ l ∈ r.logins, l.tok.tokenStr = t → l.loggedOut = false

theorem AuthRun.Current.userOk {user : User}
    (h : r.Current t tok user) (e : Endpoint) : e.userOk r.ctx tok = true := by
  cases e <;> simp [Endpoint.userOk, h.present, h.active, h.nonce]

/-- A request that hands `t` to every endpoint. -/
def presenting (t : Bytes) : Request where
  authToken := t
  hasBody := true
  json := some (.obj [(lit "token", .str t), (lit "refresh_token", .str t)])
  dpopProof := [1]
  methodStr := []
  host := []
  path := []

theorem presents_presenting (ht : (0 : UInt8) ∉ t) (e : Endpoint) :
    e.Presents t (presenting t) := by
  have htoken : reqJsonStrValue (presenting t) (lit "token") = some t :=
    congrArg some (cstr_eq_self ht)
  have hrefresh : reqJsonStrValue (presenting t) (lit "refresh_token") = some t :=
    congrArg some (cstr_eq_self ht)
  cases e with
  | authenticateRequest | handleSessionCheck => rfl
  | handleVerify => rw [Endpoint.Presents, verifyTokenStr, htoken]; rfl
  | handleRefresh => exact ⟨rfl, hrefresh⟩
  | handleOauthIntrospect => exact ⟨rfl, htoken⟩

/-- A verifier that finds the token's own key passes on every path. -/
theorem dpopOk_own (t : Bytes) (tok : Token) (e : Endpoint) :
    e.dpopOk (fun _ _ _ _ => .ok tok.jkt) (presenting t) tok = true := by
  have hproof : cstr (presenting t).dpopProof = [1] := rfl
  cases e <;> simp [Endpoint.dpopOk, authenticateDpop, verifyDpop, hproof, strEq]

/-- The acceptance paths agree on a token text exactly when `token_verify` has a
result on it and, if it accepts a token that is not revoked, the user is there
and active and has not logged out everywhere since. -/
theorem pathsAgree_iff {c : Crypto} {m : TokenManager} {es : List AuthEvent} {r : AuthRun}
    {t : Bytes}
    (hm : m.Started) (hrun : run (AuthRun.step c) es (AuthRun.start m) = some r)
    (ht : (0 : UInt8) ∉ t) (now : Int64) :
    PathsAgree c r now t ↔
      ∃ res, tokenVerify c r.ctx.tokens now t = some res ∧
        ∀ tok, res = .ok tok → r.ctx.tokenIsRevoked now tok.jti = false →
          ∃ user, r.Current t tok user := by
  obtain ⟨k, hk⟩ := AuthRun.keysOk_run hm hrun
  constructor
  · rintro ⟨⟨d, hd⟩, hlogged, hdisabled⟩
    have hintro :=
      hd .handleOauthIntrospect (fun _ _ _ jkt => .ok jkt) ⟨freshEnv, freshEnv, freshEnv⟩
      (presenting t) (presents_presenting ht _) (fun _ _ => trivial)
    rw [accepts_eq hk (presents_presenting ht _), map_eq_some_iff] at hintro
    obtain ⟨res, hres, hintro⟩ := hintro
    refine ⟨res, hres, ?_⟩
    rintro tok rfl hrevoked
    -- the introspection accepts, so every path does
    obtain rfl : true = d := by
      rw [← hintro, Endpoint.decides, hrevoked]
      rfl
    have hall : ∀ e : Endpoint, e.userOk r.ctx tok = true := by
      intro e
      have hpass := hd e (fun _ _ _ _ => .ok tok.jkt) ⟨freshEnv, freshEnv, freshEnv⟩ (presenting t)
        (presents_presenting ht e) fun tok' htok' => by
          rw [hres] at htok'
          cases htok'
          exact e.dpopOk_iff.mp (dpopOk_own t tok e)
      obtain ⟨tok', htok', -, hok⟩ := accepts_true hk (presents_presenting ht e) hpass
      rw [hres] at htok'
      cases htok'
      exact hok
    have hsession := hall .handleSessionCheck
    obtain ⟨user, huser, hactive⟩ := (any_eq_true _ _).mp hsession
    have hnonce := hall .authenticateRequest
    simp only [Endpoint.userOk, huser] at hnonce
    refine ⟨user, huser, by simpa using hactive, by simpa using hnonce, ?_⟩
    intro l hl htext
    by_contra hout
    refine hlogged l hl (by simpa using hout) htext .handleOauthIntrospect
      (fun _ _ _ jkt => .ok jkt) ⟨freshEnv, freshEnv, freshEnv⟩ (presenting t)
      (presents_presenting ht _) ?_
    rw [accepts_eq hk (presents_presenting ht _), hres, map_some, hintro]
  · rintro ⟨res, hres, hcurrent⟩
    refine ⟨?_, ?_, ?_⟩
    · -- the decision is that of the path that asks least
      refine ⟨Endpoint.decides (fun _ _ _ jkt => .ok jkt) r.ctx now (presenting t)
        .handleOauthIntrospect res, fun e dpop draws req hpres hdpop => ?_⟩
      rw [accepts_eq hk hpres, hres, map_some]
      cases res with
      | error err => rfl
      | ok tok =>
        have hpass := e.dpopOk_iff.mpr (hdpop tok hres)
        simp only [Endpoint.decides, hpass]
        cases hrevoked : r.ctx.tokenIsRevoked now tok.jti with
        | true => rfl
        | false =>
          obtain ⟨user, huser⟩ := hcurrent tok rfl hrevoked
          rw [huser.userOk e]
          rfl
    · intro l hl hout htext e dpop draws req hpres hacc
      obtain ⟨tok, htok, hrevoked, -⟩ := accepts_true hk hpres hacc
      rw [hres] at htok
      cases htok
      obtain ⟨user, huser⟩ := hcurrent tok rfl hrevoked
      rw [huser.login l hl htext] at hout
      cases hout
    · intro tok user htok huser hstatus e dpop draws req hpres hacc
      obtain ⟨tok', htok', hrevoked, -⟩ := accepts_true hk hpres hacc
      rw [htok] at htok'
      cases htok'
      rw [hres] at htok
      cases htok
      obtain ⟨user', huser'⟩ := hcurrent tok rfl hrevoked
      have hsame := huser'.present
      rw [huser] at hsame
      cases hsame
      exact hstatus huser'.active

/-! ## §4 A logged-out token -/

def doe : User where
  id := 0
  username := lit "doe"
  phone := []
  status := .active

def doeArgs : IssueArgs where
  userId := 1
  roleIds := []
  groupIds := []
  scope := none
  ttlMs := 0
  dpopJkt := none

/-- A user is created and gets a token. -/
def doeLogin : List AuthEvent := [.userCreate doe, .issue doeArgs freshEnv]

/-- What is seen of the token after the login and a `logout_all`. -/
def doeSeen (es : List AuthEvent) : Option (AuthRun × Login × Token) :=
  (run (AuthRun.step onesCrypto) es (AuthRun.start freshManager)).bind fun r =>
    r.logins.head?.bind fun l =>
      (tokenVerify onesCrypto r.ctx.tokens 1000 l.tok.tokenStr).bind fun res =>
        res.toOption.map fun out => (r, l, out)

theorem of_doeSeen {l : Login} {out : Token} (h : doeSeen es = some (r, l, out)) :
    run (AuthRun.step onesCrypto) es (AuthRun.start freshManager) = some r ∧ l ∈ r.logins ∧
      tokenVerify onesCrypto r.ctx.tokens 1000 l.tok.tokenStr = some (.ok out) := by
  obtain ⟨r, hrun, h⟩ := bind_eq_some_iff.mp h
  obtain ⟨l, hl, h⟩ := bind_eq_some_iff.mp h
  obtain ⟨res, hres, h⟩ := bind_eq_some_iff.mp h
  obtain ⟨out, hout, h⟩ := map_eq_some_iff.mp h
  cases h
  exact ⟨hrun, mem_of_head? hl, ok_of_toOption hout ▸ hres⟩

/-- All paths agree on the token of a user who has just logged in. -/
theorem fresh_login_agreed : ∃ r l,
    run (AuthRun.step onesCrypto) doeLogin (AuthRun.start freshManager) = some r ∧ l ∈ r.logins ∧
      PathsAgree onesCrypto r 1000 l.tok.tokenStr := by
  have hseen : (doeSeen doeLogin).map (fun x => (decide ((0 : UInt8) ∉ x.2.1.tok.tokenStr),
      x.1.ctx.userGetById x.2.2.userId, x.1.ctx.tokens.getNonce 1, x.1.logins.all fun l =>
        !l.loggedOut)) =
      some (true, some { doe with id := 1 }, 0, true) := by
    decide +kernel
  obtain ⟨⟨r, l, out⟩, hrun, hx⟩ := map_eq_some_iff.mp hseen
  obtain ⟨hrun, hl, hout⟩ := of_doeSeen hrun
  obtain ⟨hnul, huser, hnonce, hlogins⟩ : _ ∧ _ ∧ _ ∧ _ := by simpa only [Prod.mk.injEq] using hx
  refine ⟨r, l, hrun, hl, ?_⟩
  refine (pathsAgree_iff (.init tokenManagerInit_fresh) hrun (of_decide_eq_true hnul) 1000).mpr
    ⟨_, hout, ?_⟩
  rintro _ ⟨⟩ -
  refine ⟨_, huser, rfl, ?_, fun l hl _ => by simpa using all_eq_true.mp hlogins l hl⟩
  exact hnonce.symm ▸ UInt64.zero_le

/-- After `logout_all` the token is still exchanged for new ones, while
`authenticate_request` refuses it. -/
theorem loggedOut_refreshed : ∃ r l,
    run (AuthRun.step onesCrypto) (doeLogin ++ [.logoutAll 1]) (AuthRun.start freshManager) =
      some r ∧
      l ∈ r.logins ∧ l.loggedOut = true ∧
      (∀ dpop draws, Endpoint.handleRefresh.accepts onesCrypto dpop r.ctx 1000 draws
        (presenting l.tok.tokenStr) = some true) ∧
      ¬PathsAgree onesCrypto r 1000 l.tok.tokenStr := by
  have hseen : (doeSeen (doeLogin ++ [.logoutAll 1])).map (fun x =>
      (decide ((0 : UInt8) ∉ x.2.1.tok.tokenStr), x.2.1.loggedOut,
        Endpoint.handleRefresh.decides (fun _ _ _ jkt => .ok jkt) x.1.ctx 1000 (presenting [])
          (.ok x.2.2))) =
      some (true, true, true) := by
    decide +kernel
  obtain ⟨⟨r, l, out⟩, hrun, hx⟩ := map_eq_some_iff.mp hseen
  obtain ⟨hrun, hl, hout⟩ := of_doeSeen hrun
  obtain ⟨hnul, hlogged, hdecides⟩ : _ ∧ _ ∧ _ := by simpa only [Prod.mk.injEq] using hx
  obtain ⟨k, hk⟩ := AuthRun.keysOk_run (.init tokenManagerInit_fresh) hrun
  have hpresents := presents_presenting (of_decide_eq_true hnul) .handleRefresh
  have haccepts : ∀ dpop draws, Endpoint.handleRefresh.accepts onesCrypto dpop r.ctx 1000 draws
      (presenting l.tok.tokenStr) = some true := by
    intro dpop draws
    rw [accepts_eq hk hpresents, hout]
    exact congrArg some hdecides
  refine ⟨r, l, hrun, hl, hlogged, haccepts, fun hagree => ?_⟩
  exact hagree.loggedOut l hl hlogged rfl .handleRefresh (fun _ _ _ jkt => .ok jkt)
    ⟨freshEnv, freshEnv, freshEnv⟩ _ hpresents (haccepts _ _)

end SsoSystem
