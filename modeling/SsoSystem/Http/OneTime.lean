/-
SsoSystem.Http.OneTime — authorization codes, refresh tokens and SMS codes
under concurrent requests.

Any number of token and SMS-login requests are in progress at once; a step is
one storage call of one of them, or one storage call of any other request.
Each handler looks its credential up, judges it, and takes it away in a later
call. Beside the server the model keeps which credential a request has found
good and whether it has taken it away since, and a list of the credentials
that tokens were handed out for.
-/
import SsoSystem.Http.Login
import SsoSystem.Storage.GrantTheorems

namespace SsoSystem

open CMem Handling List Option Function Server Grants

/-! ## §1 Credentials -/

/-- A credential that is good for one token response. A refresh token is known by its hash,
an SMS code by its phone and the number of its saving. -/
inductive Credential where
  | code (text : Bytes)
  | refresh (hash : Bytes)
  | sms (phone : Bytes) (serial : Nat)
  deriving DecidableEq, Repr

/-- The credential that a lookup has found to be good. -/
def Call.claim (g : Grants) : (call : Call) → call.Result → Option Credential
  | .oauthCodeGet _, some ac => if ac.used then none else some (.code (cstr ac.code))
  | .refreshTokenGet hash, some rt => if rt.revoked then none else some (.refresh (cstr hash))
  | .getSmsCode _ phone, .ok _ => some (.sms (cstr phone) ((g.smsRow phone).elim 0 SmsCode.serial))
  | _, _ => none

/-- The call takes the credential away. -/
def Call.consumes (x : Credential) : Call → Bool
  | .oauthCodeMarkUsed code => x == .code (cstr code)
  | .refreshTokenRevoke hash => x == .refresh (cstr hash)
  | .deleteSmsCode phone =>
    match x with
    | .sms p _ => p == cstr phone
    | _ => false
  | _ => false

/-- A token response that a one-time credential was given for. -/
def Answer.oneTime : Answer → Bool
  | .codeTokens _ _ _ => true
  | .refreshedTokens _ => true
  | .smsLoggedIn _ _ => true
  | _ => false

/-! ## §2 Traffic -/

/-- A request in progress: what is left to do, the credential it found good, and whether it
has taken that away. -/
structure Thread where
  prog : Handling
  held : Option Credential
  spent : Bool

inductive OneTimeEndpoint where
  | token | loginBySms
  deriving DecidableEq, Repr

def OneTimeEndpoint.handler (P : Platform) (cfg : ServerConfig) (env : Moment) (req : Request) :
    OneTimeEndpoint → Handling
  | .token => handleOauthToken P cfg env req
  | .loginBySms => handleLoginBySms P env req

/-- The server, the requests in progress, and what tokens were handed out for. -/
structure Traffic where
  srv : Server
  threads : Nat → Option Thread
  successes : List (Option Credential)

/-- A request arrives, one in progress goes a call further or ends, or another request makes
a call. -/
inductive TrafficEvent where
  | arrive (i : Nat) (endpoint : OneTimeEndpoint) (env : Moment) (req : Request)
  | advance (i : Nat)
  | other (call : Call)

/-- The request after a call that returned `r`. -/
def Thread.next (t : Thread) (g : Grants) (call : Call) (r : call.Result) (prog : Handling) :
    Thread :=
  match call.claim g r with
  | some x => { prog, held := some x, spent := false }
  | none => { prog, held := t.held, spent := t.spent || t.held.any fun x => call.consumes x }

namespace Traffic

variable (P : Platform) (cfg : ServerConfig)

/-- Any server, before its first SMS code. -/
def start (srv : Server) : Traffic where
  srv := { srv with grants := { srv.grants with smsCodes := [], smsSaved := 0 } }
  threads := fun _ => none
  successes := []

variable (s : Traffic)

/-- The next call of a request, or its end. -/
def advance (i : Nat) (t : Thread) : Option Traffic :=
  match t.prog with
  | .ret answer =>
    some { s with
      threads := Function.update s.threads i none
      successes := if answer.oneTime then t.held :: s.successes else s.successes }
  | .stuck => none
  | .call op k =>
    some { s with
      srv := (Server.perform op s.srv).2
      threads := Function.update s.threads i
        (some
          (t.next s.srv.grants op (Server.perform op s.srv).1 (k (Server.perform op s.srv).1))) }

def step : TrafficEvent → Option Traffic
  | .arrive i endpoint env req =>
    if (s.threads i).isSome then none
    else
      some { s with
        threads := Function.update s.threads i
          (some { prog := endpoint.handler P cfg env req, held := none, spent := false }) }
  | .advance i => (s.threads i).bind (s.advance i)
  | .other call => some { s with srv := (Server.perform call s.srv).2 }

/-- Every token response was given for a credential, and for none there were two. -/
def AtMostOnce : Prop := none ∉ s.successes ∧ s.successes.Nodup

/-- The credential that the next call of a request finds good. -/
def nextClaim (t : Thread) : Option Credential :=
  match t.prog with
  | .call op _ => op.claim s.srv.grants (Server.perform op s.srv).1
  | _ => none

/-- No request finds a credential good that another one in progress has found good and not
yet taken away. Of the calls of other requests, the one that throws rows of the code table
away is left out; no handler makes it. -/
def Exclusive : TrafficEvent → Prop
  | .arrive _ _ _ _ => True
  | .advance i => ∀ t, s.threads i = some t → ∀ x, s.nextClaim t = some x →
      ∀ j t', j ≠ i → s.threads j = some t' → t'.held = some x → t'.spent = true
  | .other call => ∀ now, call ≠ .oauthCodeCleanup now

end Traffic

/-! ## §3 Programs -/

/-- Neither a lookup of a credential nor a call that takes one away or throws codes out. -/
def Call.quiet : Call → Bool
  | .oauthCodeGet _ | .refreshTokenGet _ | .getSmsCode _ _ => false
  | .oauthCodeMarkUsed _ | .refreshTokenRevoke _ | .deleteSmsCode _ | .oauthCodeCleanup _ => false
  | _ => true

/-- The call never finds a credential good and throws no codes out. -/
structure Harmless (call : Call) : Prop where
  claim : ∀ g r, call.claim g r = none
  keep : ∀ now, call ≠ .oauthCodeCleanup now

variable {call : Call} {Q : Grants → Prop}

theorem harmless_of_quiet (h : call.quiet = true) : Harmless call := by
  refine ⟨fun g r => ?_, fun now => ?_⟩
  · cases call <;> first | rfl | cases h
  · rintro rfl
    cases h

/-- A call that reads consumes nothing. -/
theorem consumes_of_quiet (h : call.quiet = true) (x : Credential) : call.consumes x = false := by
  cases call <;> first | rfl | cases h

/-- A call that consumes a credential finds none good. -/
theorem harmless_of_consumes {x : Credential} (h : call.consumes x = true) : Harmless call := by
  refine ⟨fun g r => ?_, fun now => ?_⟩
  · cases call <;> first | rfl | cases h
  · rintro rfl
    cases h

/-- The program hands no tokens out before it has taken `x` away. -/
def Awaits (x : Credential) (p : Handling) : Prop :=
  p.Must (fun call => call.consumes x = true) Harmless (fun a => a.oneTime = true)

/-- A program that has found no credential good yet: it hands out no tokens, and awaits the
credential it finds. -/
def Disciplined : Handling → Prop
  | .ret answer => answer.oneTime = false
  | .stuck => True
  | .call op k => (∀ now, op ≠ .oauthCodeCleanup now) ∧ ∀ g r,
      (∀ x, op.claim g r = some x → Awaits x (k r)) ∧ (op.claim g r = none → Disciplined (k r))

/-- A property of programs that quiet calls and refusals do not disturb. -/
structure IgnoresQuiet (Q : Handling → Prop) : Prop where
  call : ∀ {op : Call} {k : op.Result → Handling}, op.quiet = true → (∀ r, Q (k r)) → Q (.call op k)
  fail : ∀ status message, Q (fail status message)

/-- Reads may be put before a program that stays harmless. -/
theorem ignoresQuiet_only : IgnoresQuiet fun p => p.Only Harmless where
  call := fun hop hk => ⟨harmless_of_quiet hop, hk⟩
  fail := fun _ _ => trivial

/-- Reads may be put before the consuming call. -/
theorem ignoresQuiet_awaits (x : Credential) : IgnoresQuiet (Awaits x) where
  call := fun hop hk =>
    Prog.Must.call (harmless_of_quiet hop) (by simp [consumes_of_quiet hop]) hk
  fail := fun _ _ => by simp [Awaits, Handling.fail, Prog.Must, Answer.oneTime]

/-- Reads may be put before a disciplined program. -/
theorem ignoresQuiet_disciplined : IgnoresQuiet Disciplined where
  call := by
    intro op k hop hk
    refine ⟨(harmless_of_quiet hop).keep, fun g r => ⟨fun x hx => ?_, fun _ => hk r⟩⟩
    rw [(harmless_of_quiet hop).claim] at hx
    cases hx
  fail := fun _ _ => rfl

/-- A lookup: what follows awaits the credential it finds, or goes on without one. -/
theorem disciplined_call {op : Call} {k : op.Result → Handling}
    (hkeep : ∀ now, op ≠ .oauthCodeCleanup now)
    (h : ∀ g r, match op.claim g r with
      | some x => Awaits x (k r)
      | none => Disciplined (k r)) : Disciplined (.call op k) := by
  refine ⟨hkeep, fun g r => ⟨fun x hx => ?_, fun hnone => ?_⟩⟩
  · simpa only [hx] using h g r
  · simpa only [hnone] using h g r

namespace IgnoresQuiet

variable {Q : Handling → Prop} {P : Platform} {cfg : ServerConfig} {env : Moment}

theorem withClientTtl (h : IgnoresQuiet Q) {clientId : Bytes} {k : Int64 → Handling}
    (hk : ∀ ttl, Q (k ttl)) :
    Q (withClientTtl cfg clientId k) := by
  unfold SsoSystem.withClientTtl
  split
  · exact hk _
  · refine h.call rfl fun r => ?_
    split
    · exact hk _
    · exact hk _

variable {k : User → Handling} {uid : Nat} {bad : Handling}

theorem withActiveUser (h : IgnoresQuiet Q) (hk : ∀ user, Q (k user)) :
    Q (withActiveUser uid k) := by
  refine h.call rfl fun r => ?_
  split
  · exact h.fail _ _
  · split
    · exact h.fail _ _
    · exact hk _

theorem issueForUser (h : IgnoresQuiet Q) {user : User} {scope : Option Bytes}
    {clientId jkt : Bytes}
    {k : Token → Handling} (hk : ∀ tok, Q (k tok)) :
      Q (issueForUser P cfg env user scope clientId jkt k) := by
  refine h.call rfl fun roles => h.call rfl fun groups => h.withClientTtl fun ttl =>
    h.call rfl fun ctx => ?_
  split
  · exact h.fail _ _
  · exact hk _

theorem withPhoneUser (h : IgnoresQuiet Q) {phone : Bytes}
    (hk : ∀ user, Q (k user)) (hbad : Q bad) : Q (withPhoneUser env phone k bad) := by
  refine h.call rfl fun r => ?_
  split
  · exact hk _
  · refine h.call rfl fun r => ?_
    split
    · exact hk _
    · exact hbad

theorem issuing (h : IgnoresQuiet Q) {args : IssueArgs} {draw : IssueEnv} {good : Token → Handling}
    (hgood : ∀ tok, Q (good tok)) (hbad : Q bad) : Q (issuing P args draw good bad) := by
  refine h.call rfl fun ctx => ?_
  split
  · exact hgood _
  · exact hbad

theorem withMemberships (h : IgnoresQuiet Q) {k : List Nat → List Nat → Handling}
    (hk : ∀ roles groups, Q (k roles groups)) : Q (withMemberships uid k) :=
  h.call rfl fun roles => h.call rfl fun groups => hk roles groups

end IgnoresQuiet

section Handlers

variable {P : Platform} {cfg : ServerConfig} {env : Moment} {req : Request}

/-- A code is consumed before tokens are answered for it. -/
theorem awaits_redeemCode (ac : AuthCode) (jkt : Bytes) :
    Awaits (.code (cstr ac.code)) (redeemCode P cfg env ac jkt) := by
  refine ⟨fun _ r => ?_, fun hmiss => absurd (by simp [Call.consumes]) hmiss⟩
  refine ignoresQuiet_only.withActiveUser fun user => ignoresQuiet_only.issueForUser fun tok => ?_
  exact ignoresQuiet_only.call rfl fun _ => trivial

/-- A refresh token is revoked before tokens are answered for it. -/
theorem awaits_rotateRefresh (hash : Bytes) (rt : RefreshToken) (jkt : Bytes) :
    Awaits (.refresh (cstr hash)) (rotateRefresh P cfg env hash rt jkt) := by
  have h := ignoresQuiet_awaits (.refresh (cstr hash))
  refine h.withActiveUser fun user => h.issueForUser fun tok => ?_
  refine ⟨fun _ r => ?_, fun hmiss => absurd (by simp [Call.consumes]) hmiss⟩
  exact ignoresQuiet_only.call rfl fun _ => trivial

/-- An SMS code is deleted before tokens are answered for it. -/
theorem awaits_deleteSmsCode (phone : Bytes) (n : Nat) :
    Awaits (.sms (cstr phone) n) (.call (.deleteSmsCode phone) fun _ => smsLogin P env phone) := by
  refine ⟨fun _ r => ?_, fun hmiss => absurd (by simp [Call.consumes]) hmiss⟩
  refine ignoresQuiet_only.withPhoneUser (fun user => ?_) trivial
  split
  · trivial
  · refine ignoresQuiet_only.withMemberships fun roles groups => ?_
    exact ignoresQuiet_only.issuing (fun tok => trivial) trivial

theorem disciplined_codeGrant (jkt : Bytes) : Disciplined (codeGrant P cfg env req jkt) := by
  have h := ignoresQuiet_disciplined
  unfold codeGrant
  split
  · next code redirectUri =>
    refine disciplined_call (by simp) fun g r => ?_
    cases r with
    | none => exact h.fail _ _
    | some ac =>
      cases hused : ac.used with
      | true => simpa [Call.claim, codeAcceptable, hused] using h.fail _ _
      | false =>
        simp only [Call.claim, hused, Bool.false_eq_true, if_false]
        split
        · exact awaits_redeemCode ac jkt
        · exact (ignoresQuiet_awaits _).fail _ _
  · exact h.fail _ _

theorem disciplined_clientGrant (jkt : Bytes) : Disciplined (clientGrant P cfg env req jkt) := by
  have h := ignoresQuiet_disciplined
  have hissue : ∀ clientId, Disciplined (issueForClient P cfg env req clientId jkt) := by
    intro clientId
    refine h.withClientTtl fun ttl => h.call rfl fun ctx => ?_
    split
    · exact h.fail _ _
    · rfl
  unfold clientGrant
  split
  · split
    · split
      · exact hissue _
      · exact h.fail _ _
    · refine h.call rfl fun r => ?_
      split
      · exact h.fail _ _
      · split_ifs
        · exact h.fail _ _
        · exact h.fail _ _
        · exact hissue _
  · exact h.fail _ _

theorem disciplined_refreshGrant (jkt : Bytes) : Disciplined (refreshGrant P cfg env req jkt) := by
  have h := ignoresQuiet_disciplined
  unfold refreshGrant
  split
  · exact h.fail _ _
  · next token =>
    refine disciplined_call (by simp) fun g r => ?_
    cases r with
    | none => exact h.fail _ _
    | some rt =>
      cases hrevoked : rt.revoked with
      | true =>
        simp only [Call.claim, hrevoked, if_true]
        exact h.call rfl fun _ => h.fail _ _
      | false =>
        simp only [Call.claim, hrevoked, Bool.false_eq_true, if_false]
        split
        · exact (ignoresQuiet_awaits _).fail _ _
        · exact awaits_rotateRefresh _ rt jkt

/-- The token endpoint looks a credential up, then consumes it. -/
theorem disciplined_handleOauthToken : Disciplined (handleOauthToken P cfg env req) := by
  have h := ignoresQuiet_disciplined
  unfold handleOauthToken
  split_ifs
  · exact h.fail _ _
  · exact h.fail _ _
  · split
    · exact h.fail _ _
    · split
      · exact h.fail _ _
      · split_ifs
        · exact disciplined_codeGrant _
        · exact disciplined_clientGrant _
        · exact disciplined_refreshGrant _
        · exact h.fail _ _

/-- So does the login by SMS. -/
theorem disciplined_handleLoginBySms : Disciplined (handleLoginBySms P env req) := by
  have h := ignoresQuiet_disciplined
  unfold handleLoginBySms
  split
  · exact h.fail _ _
  · split
    · exact h.fail _ _
    · split
      · next phone code _ _ =>
        split
        · exact h.fail _ _
        · refine disciplined_call (by simp) fun g r => ?_
          cases r with
          | error err => exact h.fail _ _
          | ok expected =>
            simp only [Call.claim]
            split
            · exact (ignoresQuiet_awaits _).fail _ _
            · exact awaits_deleteSmsCode phone _
      · rfl

/-- So do all endpoints that take a one-time credential. -/
theorem disciplined_handler (endpoint : OneTimeEndpoint) :
    Disciplined (endpoint.handler P cfg env req) := by
  cases endpoint with
  | token => exact disciplined_handleOauthToken
  | loginBySms => exact disciplined_handleLoginBySms

end Handlers

/-! ## §4 Calls -/

namespace Credential

/-- Taken away for good. -/
def Dead (g : Grants) : Credential → Prop
  | .code text => g.CodeSpent text
  | .refresh hash => g.RefreshSpent hash
  | .sms _ n => g.SmsGone n

/-- Not thrown out: the call that takes it away will find it. -/
def Kept (g : Grants) : Credential → Prop
  | .code text => ∃ ac, g.oauthCodeGet text = some ac
  | .refresh hash => ∃ rt, g.refreshTokenGet hash = some rt
  | .sms phone n => g.SmsHeld phone n

end Credential

/-- The tables of one-time credentials are the same. -/
structure SameCredentials (g g' : Grants) : Prop where
  codes : g'.codes = g.codes
  refreshTokens : g'.refreshTokens = g.refreshTokens
  smsCodes : g'.smsCodes = g.smsCodes
  smsSaved : g'.smsSaved = g.smsSaved

/-- The client functions do not count. -/
theorem SameCredentials.of_clientsOnly {g g' : Grants} (h : g.ClientsOnly g') :
    SameCredentials g g' := by
  obtain ⟨clients, nextOcid, rfl⟩ := h
  exact ⟨rfl, rfl, rfl, rfl⟩

/-- What holds of the tables of one-time credentials and survives every call but the one
that throws codes out. -/
structure Lasting (Q : Grants → Prop) : Prop where
  same : ∀ {g g'}, SameCredentials g g' → Q g → Q g'
  codeCreate : ∀ {g} ac, Q g → Q (g.oauthCodeCreate ac)
  codeMarkUsed : ∀ {g} code, Q g → Q (g.oauthCodeMarkUsed code)
  refreshCreate : ∀ {g} rt, Q g → Q (g.refreshTokenCreate rt)
  refreshRevoke : ∀ {g} hash, Q g → Q (g.refreshTokenRevoke hash)
  refreshRevokeFamily : ∀ {g} uid clientId, Q g → Q (g.refreshTokenRevokeFamily uid clientId)
  smsSave : ∀ {g} phone code expiresAt, Q g → Q (g.saveSmsCode phone code expiresAt)
  smsDelete : ∀ {g} phone, Q g → Q (g.deleteSmsCode phone)

/-- A lasting property outlives every call but the cleanup of codes. -/
theorem Lasting.perform (h : Lasting Q) (hkeep : ∀ now, call ≠ .oauthCodeCleanup now)
    {s : Server} (hs : Q s.grants) : Q (Server.perform call s).2.grants := by
  have hwritten : ∀ {α : Type} (res : Except SsoError α) (put : α → Server),
      (∀ a, res = .ok a → Q (put a).grants) → Q (written res s put).2.grants := by
    intro α res put hput
    cases res with
    | error err => exact hs
    | ok a => exact hput a rfl
  cases call with
  | oauthCodeCleanup now => exact absurd rfl (hkeep now)
  | oauthCodeCreate ac => exact h.codeCreate ac hs
  | oauthCodeMarkUsed code => exact h.codeMarkUsed code hs
  | refreshTokenCreate rt => exact h.refreshCreate rt hs
  | refreshTokenRevoke hash => exact h.refreshRevoke hash hs
  | refreshTokenRevokeFamily uid clientId => exact h.refreshRevokeFamily uid clientId hs
  | saveSmsCode phone code expiresAt => exact h.smsSave phone code expiresAt hs
  | deleteSmsCode phone => exact h.smsDelete phone hs
  | oauthClientCreate | oauthClientUpdate | oauthClientDelete =>
    refine hwritten _ _ fun g hg => h.same (.of_clientsOnly ?_) hs
    first
    | exact oauthClientCreate_clientsOnly hg
    | exact oauthClientUpdate_clientsOnly hg
    | exact oauthClientDelete_clientsOnly hg
  | tokenRotateKey | storeWrite => exact hwritten _ _ fun _ _ => hs
  | manage | permCheck | evaluate =>
    simp only [perform, manage]
    split <;> exact hs
  | _ => exact hs

/-- A code with a row keeps it, and what marking cannot undo. -/
theorem lasting_code {R : AuthCode → Prop} (hR : ∀ ac, R ac → R { ac with used := true })
    (code : Bytes) :
    Lasting fun g => ∃ ac, g.oauthCodeGet code = some ac ∧ R ac where
  same := by
    intro g g' hsame h
    rw [oauthCodeGet, hsame.codes]
    exact h
  codeCreate := by
    rintro g new ⟨ac, hget, hac⟩
    exact ⟨ac, by simp [oauthCodeGet_create, hget], hac⟩
  codeMarkUsed := by
    rintro g c ⟨ac, hget, hac⟩
    rcases oauthCodeGet_markUsed (g := g) c code with heq | heq
    · exact ⟨ac, heq.trans hget, hac⟩
    · exact ⟨{ ac with used := true }, by rw [heq, hget]; rfl, hR ac hac⟩
  refreshCreate := fun _ h => h
  refreshRevoke := fun _ h => h
  refreshRevokeFamily := fun _ _ h => h
  smsSave := fun _ _ _ h => h
  smsDelete := fun _ h => h

/-- A property of a stored refresh token that survives its revocation lasts. -/
theorem lasting_refresh {R : RefreshToken → Prop} (hR : ∀ rt, R rt → R { rt with revoked := true })
    (hash : Bytes) :
    Lasting fun g => ∃ rt, g.refreshTokenGet hash = some rt ∧ R rt where
  same := by
    intro g g' hsame h
    rw [refreshTokenGet, hsame.refreshTokens]
    exact h
  codeCreate := fun _ h => h
  codeMarkUsed := fun _ h => h
  refreshCreate := by
    rintro g new ⟨rt, hget, hrt⟩
    exact ⟨rt, by simp [refreshTokenGet_create, hget], hrt⟩
  refreshRevoke := by
    rintro g x ⟨rt, hget, hrt⟩
    rcases refreshTokenGet_revoke (g := g) x hash with heq | heq
    · exact ⟨rt, heq.trans hget, hrt⟩
    · exact ⟨{ rt with revoked := true }, by rw [heq, hget]; rfl, hR rt hrt⟩
  refreshRevokeFamily := by
    rintro g uid clientId ⟨rt, hget, hrt⟩
    refine ⟨_, by rw [refreshTokenGet_revokeFamily, hget]; rfl, ?_⟩
    dsimp only
    split
    · exact hR rt hrt
    · exact hrt
  smsSave := fun _ _ _ h => h
  smsDelete := fun _ h => h

/-- What is said of the SMS codes survives the calls about other credentials. -/
theorem lasting_of_sms
    (hsame : ∀ {g g' : Grants}, g'.smsCodes = g.smsCodes → g'.smsSaved = g.smsSaved → Q g → Q g')
    (hsave : ∀ {g : Grants} phone code expiresAt, Q g → Q (g.saveSmsCode phone code expiresAt))
    (hdelete : ∀ {g : Grants} phone, Q g → Q (g.deleteSmsCode phone)) : Lasting Q where
  same := fun h => hsame h.smsCodes h.smsSaved
  codeCreate := fun _ => hsame rfl rfl
  codeMarkUsed := fun _ => hsame rfl rfl
  refreshCreate := fun _ => hsame rfl rfl
  refreshRevoke := fun _ => hsame rfl rfl
  refreshRevokeFamily := fun _ _ => hsame rfl rfl
  smsSave := hsave
  smsDelete := hdelete

theorem lasting_smsOk : Lasting Grants.SmsOk := by
  refine lasting_of_sms (fun hcodes hsaved h => ?_) (fun _ _ _ h => h.save _ _ _) fun _ h =>
    h.delete _
  exact ⟨hcodes ▸ h.nodup, by rw [hcodes, hsaved]; exact h.below⟩

/-- A code that is gone stays gone. -/
theorem lasting_smsGone (n : Nat) : Lasting fun g => g.SmsGone n := by
  refine lasting_of_sms (fun hcodes hsaved h => ?_) (fun _ _ _ h => h.save _ _ _) fun _ h =>
    h.delete _
  exact ⟨hsaved ▸ h.below, by rw [hcodes]; exact h.row⟩

theorem lasting_smsHeld (phone : Bytes) (n : Nat) : Lasting fun g => g.SmsOk ∧
    g.SmsHeld phone n := by
  refine lasting_of_sms (fun hcodes hsaved h => ?_)
    (fun _ _ _ h => ⟨h.1.save _ _ _, h.2.save h.1 _ _ _⟩)
    fun _ h => ⟨h.1.delete _, h.2.delete h.1 _⟩
  refine ⟨⟨hcodes ▸ h.1.nodup, by rw [hcodes, hsaved]; exact h.1.below⟩, hsaved ▸ h.2.below, ?_⟩
  rw [smsRow, hcodes]
  exact h.2.row

section OneCall

variable {x : Credential} {call : Call} {s : Server}

/-- A consumed credential stays so. -/
theorem dead_perform (hkeep : ∀ now, call ≠ .oauthCodeCleanup now) (h : x.Dead s.grants) :
    x.Dead (Server.perform call s).2.grants := by
  cases x with
  | code text =>
    exact (lasting_code (R := fun ac => ac.used = true) (fun _ _ => rfl) text).perform hkeep h
  | refresh hash =>
    exact (lasting_refresh (R := fun rt => rt.revoked = true) (fun _ _ => rfl) hash).perform hkeep h
  | sms phone n => exact (lasting_smsGone n).perform hkeep h

/-- A credential that was looked up is still the same one, or consumed. -/
theorem kept_perform (hkeep : ∀ now, call ≠ .oauthCodeCleanup now) (hok : s.grants.SmsOk)
    (h : x.Kept s.grants) :
    x.Kept (Server.perform call s).2.grants := by
  cases x with
  | code text =>
    obtain ⟨ac, hget, -⟩ :=
      (lasting_code (R := fun _ => True) (fun _ _ => trivial) text).perform hkeep
      (h.imp fun _ hget => ⟨hget, trivial⟩)
    exact ⟨ac, hget⟩
  | refresh hash =>
    obtain ⟨rt, hget, -⟩ :=
      (lasting_refresh (R := fun _ => True) (fun _ _ => trivial) hash).perform hkeep
      (h.imp fun _ hget => ⟨hget, trivial⟩)
    exact ⟨rt, hget⟩
  | sms phone n => exact ((lasting_smsHeld phone n).perform hkeep ⟨hok, h⟩).2

/-- A credential found good is there and has not been taken away. -/
theorem kept_of_claim (hok : s.grants.SmsOk)
    (hclaim : call.claim s.grants (Server.perform call s).1 = some x) :
    x.Kept s.grants ∧ ¬x.Dead s.grants := by
  cases call with
  | oauthCodeGet code =>
    simp only [perform] at hclaim
    cases hget : s.grants.oauthCodeGet code with
    | none => simp [hget, Call.claim] at hclaim
    | some ac =>
      simp only [hget, Call.claim, ite_none_left_eq_some, some.injEq] at hclaim
      obtain ⟨hunused, rfl⟩ := hclaim
      have hcode : strEq ac.code code = true := by simpa only using find?_some hget
      have hrow : s.grants.oauthCodeGet (cstr ac.code) = some ac := by
        rw [oauthCodeGet_congr ((cstr_cstr _).trans (strEq_iff.mp hcode)), hget]
      exact ⟨⟨ac, hrow⟩, by simp [Credential.Dead, CodeSpent, hrow, hunused]⟩
  | refreshTokenGet hash =>
    simp only [perform] at hclaim
    cases hget : s.grants.refreshTokenGet hash with
    | none => simp [hget, Call.claim] at hclaim
    | some rt =>
      simp only [hget, Call.claim, ite_none_left_eq_some, some.injEq] at hclaim
      obtain ⟨hlive, rfl⟩ := hclaim
      have hrow : s.grants.refreshTokenGet (cstr hash) = some rt := by
        rw [refreshTokenGet_congr (cstr_cstr _), hget]
      exact ⟨⟨rt, hrow⟩, by simp [Credential.Dead, RefreshSpent, hrow, hlive]⟩
  | getSmsCode now phone =>
    simp only [perform, getSmsCode] at hclaim
    cases hrow : s.grants.smsRow phone with
    | none =>
      simp only [hrow] at hclaim
      cases hclaim
    | some r =>
      simp only [hrow] at hclaim
      split at hclaim
      · cases hclaim
      · simp only [Call.claim, hrow, elim_some, some.injEq] at hclaim
        subst hclaim
        have hrow' : s.grants.smsRow (cstr phone) = some r := by
          rw [smsRow_congr (cstr_cstr _), hrow]
        exact ⟨smsHeld_of_row hok hrow', fun hgone => hgone.row r (mem_of_find?_eq_some hrow) rfl⟩
  | _ => cases hclaim

/-- The consuming call consumes what was looked up. -/
theorem dead_of_consumes (hok : s.grants.SmsOk) (h : x.Kept s.grants)
    (hconsumes : call.consumes x = true) :
    x.Dead (Server.perform call s).2.grants := by
  cases call with
  | oauthCodeMarkUsed code =>
    rw [Call.consumes, beq_iff_eq] at hconsumes
    subst hconsumes
    obtain ⟨ac, hget⟩ := h
    exact codeSpent_markUsed hget (cstr_cstr _).symm
  | refreshTokenRevoke hash =>
    rw [Call.consumes, beq_iff_eq] at hconsumes
    subst hconsumes
    obtain ⟨rt, hget⟩ := h
    rw [refreshTokenGet_congr (cstr_cstr hash)] at hget
    obtain ⟨rt', hget', hrevoked⟩ := refreshSpent_revoke hget
    exact ⟨rt', by rw [refreshTokenGet_congr (cstr_cstr hash)]; exact hget', hrevoked⟩
  | deleteSmsCode phone =>
    cases x with
    | sms p n =>
      rw [Call.consumes, beq_iff_eq] at hconsumes
      subst hconsumes
      have hheld : s.grants.SmsHeld phone n :=
        ⟨h.below, fun r hr hn => by rw [← smsRow_congr (cstr_cstr phone)]; exact h.row r hr hn⟩
      exact smsGone_delete hok hheld
    | code | refresh => cases hconsumes
  | _ => cases hconsumes

end OneCall

/-! ## §5 Runs -/

/-- A request in progress keeps its discipline. -/
def Thread.Ok (g : Grants) (t : Thread) : Prop :=
  match t.held with
  | none => Disciplined t.prog
  | some x => if t.spent then x.Dead g ∧ t.prog.Only Harmless else x.Kept g ∧ Awaits x t.prog

namespace Traffic

variable {P : Platform} {cfg : ServerConfig} {s : Traffic}

structure Inv (s : Traffic) : Prop where
  sms : s.srv.grants.SmsOk
  ok : ∀ i t, s.threads i = some t → t.Ok s.srv.grants
  /-- No two requests in progress have found the same credential good. -/
  alone : ∀ i j t t' x, i ≠ j → s.threads i = some t → s.threads j = some t' → t.held = some x →
    t'.held ≠ some x
  /-- What tokens were handed out for is gone, and no request has it in hand. -/
  won : ∀ o ∈ s.successes, ∃ x, o = some x ∧ x.Dead s.srv.grants ∧ ∀ i t, s.threads i = some t →
    t.held ≠ some x
  nodup : s.successes.Nodup

/-- No request runs at the start. -/
theorem inv_start (srv : Server) : (start srv).Inv where
  sms := ⟨nodup_nil, by simp [start]⟩
  ok := by simp [start]
  alone := by simp [start]
  won := by simp [start]
  nodup := nodup_nil

variable {g : Grants} {t : Thread} {i : Nat} {op : Call}
  {call : Call} {srv : Server} {answer : Answer} {k : op.Result → Handling} {x : Credential}

/-- The call of another thread does no harm to what this one has looked up. -/
theorem Thread.Ok.perform (hg : srv.grants = g)
    (hkeep : ∀ now, call ≠ .oauthCodeCleanup now) (hsms : g.SmsOk) (h : t.Ok g) :
    t.Ok (Server.perform call srv).2.grants := by
  subst hg
  unfold Thread.Ok at h ⊢
  split
  · next hheld => simpa only [hheld] using h
  · next x hheld =>
    simp only [hheld] at h
    split
    · next hspent =>
      rw [if_pos hspent] at h
      exact ⟨dead_perform hkeep h.1, h.2⟩
    · next hspent =>
      rw [if_neg hspent] at h
      exact ⟨kept_perform hkeep hsms h.1, h.2⟩

/-- A call from elsewhere keeps the invariant. -/
theorem inv_other (h : s.Inv) (hkeep : ∀ now, call ≠ .oauthCodeCleanup now) :
    Inv { s with srv := (Server.perform call s.srv).2 } where
  sms := lasting_smsOk.perform hkeep h.sms
  ok := fun i t ht => Thread.Ok.perform rfl hkeep h.sms (h.ok i t ht)
  __ := h
  won := by
    intro o ho
    obtain ⟨x, rfl, hdead, hfree⟩ := h.won o ho
    exact ⟨x, rfl, dead_perform hkeep hdead, hfree⟩

/-- A request in progress is put in the place of `i`, with nothing in hand that another has. -/
theorem inv_update {u : Thread} (h : s.Inv) (hsms : srv.grants.SmsOk)
    (hothers : ∀ j t, s.threads j = some t → t.Ok srv.grants)
    (hdead : ∀ x : Credential, x.Dead s.srv.grants → x.Dead srv.grants) (hu : u.Ok srv.grants)
    (hfree : ∀ x, u.held = some x → (∀ j t, j ≠ i → s.threads j = some t → t.held ≠ some x) ∧
      some x ∉ s.successes) :
    Inv { s with srv, threads := Function.update s.threads i (some u) } := by
  refine ⟨hsms, ?_, fun j k t t' x hjk ht ht' hx => ?_, fun o ho => ?_, h.nodup⟩
  · exact Run.forall_update_some (fun t ht => some.inj ht ▸ hu) hothers
  · rcases Run.update_eq_some ht with ⟨rfl, ⟨⟩⟩ | ⟨hj, hjt⟩
    · rcases Run.update_eq_some ht' with ⟨rfl, -⟩ | ⟨hk, hkt⟩
      · exact absurd rfl hjk
      · exact (hfree x hx).1 k t' hk hkt
    · rcases Run.update_eq_some ht' with ⟨rfl, ⟨⟩⟩ | ⟨-, hkt⟩
      · exact fun hx' => (hfree x hx').1 j t hj hjt hx
      · exact h.alone j k t t' x hjk hjt hkt hx
  · obtain ⟨x, rfl, hx, hnone⟩ := h.won o ho
    refine ⟨x, rfl, hdead x hx, Run.forall_update_some ?_ hnone⟩
    rintro t ⟨⟩ hx'
    exact (hfree x hx').2 ho

/-- A request that hands tokens out has taken its credential away. -/
theorem dead_of_oneTime (h : t.Ok g) (hprog : t.prog = .ret answer)
    (hgood : answer.oneTime = true) : ∃ x, t.held = some x ∧ x.Dead g := by
  unfold Thread.Ok at h
  split at h
  · rw [hprog] at h
    exact absurd hgood (by simpa [Disciplined] using h)
  · next x hheld =>
    split at h
    · exact ⟨x, hheld, h.1⟩
    · rw [hprog] at h
      exact absurd hgood h.2

/-- A request ends with its answer. -/
theorem inv_end (h : s.Inv) (ht : s.threads i = some t) (hprog : t.prog = .ret answer) :
    Inv { s with
      threads := Function.update s.threads i none
      successes := if answer.oneTime then t.held :: s.successes else s.successes } := by
  have hrest : ∀ j u, update s.threads i none j = some u → j ≠ i ∧ s.threads j = some u :=
    fun j u hu => (Run.update_eq_some hu).resolve_left nofun
  have hold : ∀ o ∈ s.successes, ∃ x, o = some x ∧ x.Dead s.srv.grants ∧
      ∀ j u, update s.threads i none j = some u → u.held ≠ some x := by
    intro o ho
    obtain ⟨x, rfl, hdead, hfree⟩ := h.won o ho
    exact ⟨x, rfl, hdead, fun j u hu => hfree j u (hrest j u hu).2⟩
  refine ⟨h.sms, fun j u hu => h.ok j u (hrest j u hu).2, ?_, ?_, ?_⟩
  · intro j k u u' x hjk hu hu' hx
    exact h.alone j k u u' x hjk (hrest j u hu).2 (hrest k u' hu').2 hx
  · intro o ho
    split at ho
    · next hgood =>
      obtain ⟨x, hheld, hdead⟩ := dead_of_oneTime (h.ok i t ht) hprog hgood
      rcases mem_cons.mp ho with rfl | ho
      · refine ⟨x, hheld, hdead, fun j u hu => ?_⟩
        obtain ⟨hj, hu⟩ := hrest j u hu
        exact h.alone i j t u x (Ne.symm hj) ht hu hheld
      · exact hold o ho
    · exact hold o ho
  · split
    · next hgood =>
      obtain ⟨x, hheld, -⟩ := dead_of_oneTime (h.ok i t ht) hprog hgood
      refine nodup_cons.mpr ⟨fun hmem => ?_, h.nodup⟩
      obtain ⟨y, hy, -, hfree⟩ := h.won _ hmem
      exact hfree i t ht hy
    · exact h.nodup

/-- A request with a credential in hand makes only calls that find none good. -/
theorem harmless_of_held (h : t.Ok g)
    (hprog : t.prog = .call op k) (hheld : t.held = some x) : Harmless op := by
  simp only [Thread.Ok, hheld, hprog] at h
  split at h
  · exact h.2.1
  · by_cases hhit : op.consumes x = true
    · exact harmless_of_consumes hhit
    · exact (h.2.2 hhit).1

/-- One call of a request in progress: it finds a credential good that nobody has in hand,
or keeps what it has. -/
theorem ok_next (h : t.Ok s.srv.grants) (hsms : s.srv.grants.SmsOk)
    (hprog : t.prog = .call op k) (hkeep : ∀ now, op ≠ .oauthCodeCleanup now) :
    (t.next s.srv.grants op (Server.perform op s.srv).1 (k (Server.perform op s.srv).1)).Ok
      (Server.perform op s.srv).2.grants := by
  have hperformed := Thread.Ok.perform rfl hkeep hsms h
  unfold Thread.next
  split
  · next x hclaim =>
    -- a lookup: only a request without a credential makes one
    have hawaits : Awaits x (k (perform op s.srv).1) := by
      cases hheld : t.held with
      | none =>
        simp only [Thread.Ok, hheld, hprog] at h
        exact (h.2 _ _).1 x hclaim
      | some y =>
        rw [(harmless_of_held h hprog hheld).claim] at hclaim
        cases hclaim
    exact ⟨kept_perform hkeep hsms (kept_of_claim hsms hclaim).1, hawaits⟩
  · next hnone =>
    unfold Thread.Ok at h hperformed ⊢
    cases hheld : t.held with
    | none =>
      simp only [hheld, hprog] at h ⊢
      exact (h.2 _ _).2 hnone
    | some x =>
      simp only [hheld, hprog, any_some] at h hperformed ⊢
      cases hspent : t.spent with
      | true =>
        simp only [hspent, if_true, Bool.true_or] at h hperformed ⊢
        exact ⟨hperformed.1, h.2.2 _⟩
      | false =>
        simp only [hspent, Bool.false_eq_true, if_false, Bool.false_or] at h hperformed ⊢
        cases hhit : op.consumes x with
        | true =>
          exact ⟨dead_of_consumes hsms h.1 hhit, h.2.1 hhit _⟩
        | false =>
          exact ⟨hperformed.1, (h.2.2 (by simp [hhit])).2 _⟩

/-- What a request has in hand after a call was in its hand before, or has been found good. -/
theorem held_next {r : op.Result} {p : Handling}
    (hx : (t.next g op r p).held = some x) : t.held = some x ∨ op.claim g r = some x := by
  unfold Thread.next at hx
  split at hx
  · next y hclaim => exact .inr (hclaim.trans hx)
  · exact .inl hx

/-- A request makes a call; if that finds a credential good, nobody else may be holding it. -/
theorem inv_call (h : s.Inv) (ht : s.threads i = some t)
    (hprog : t.prog = .call op k) (hkeep : ∀ now, op ≠ .oauthCodeCleanup now)
    (hexclusive : s.Exclusive (.advance i)) :
    Inv { s with
      srv := (Server.perform op s.srv).2
      threads := Function.update s.threads i
        (some (t.next s.srv.grants op (Server.perform op s.srv).1
          (k (Server.perform op s.srv).1))) } := by
  refine inv_update h (lasting_smsOk.perform hkeep h.sms)
    (fun j u hu => Thread.Ok.perform rfl hkeep h.sms (h.ok j u hu))
    (fun x hx => dead_perform hkeep hx)
    (ok_next (h.ok i t ht) h.sms hprog hkeep) fun x hx => ?_
  rcases held_next hx with hheld | hclaim
  · refine ⟨fun j u hj hu => h.alone i j t u x (Ne.symm hj) ht hu hheld, fun hmem => ?_⟩
    obtain ⟨y, hy, -, hnone⟩ := h.won _ hmem
    exact hnone i t ht (hheld.trans hy)
  · have hlive := (kept_of_claim h.sms hclaim).2
    refine ⟨fun j u hj hu hheld => ?_, fun hmem => ?_⟩
    · have hnext : s.nextClaim t = some x := by
        unfold nextClaim
        rw [hprog]
        exact hclaim
      have hspent := hexclusive t ht x hnext j u hj hu hheld
      have hok := h.ok j u hu
      unfold Thread.Ok at hok
      simp only [hheld, hspent, if_true] at hok
      exact hlive hok.1
    · obtain ⟨y, hy, hdead, -⟩ := h.won _ hmem
      cases hy
      exact hlive hdead

theorem keeps_codes (h : t.Ok g) (hprog : t.prog = .call op k) :
    ∀ now, op ≠ .oauthCodeCleanup now := by
  cases hheld : t.held with
  | none =>
    simp only [Thread.Ok, hheld, hprog] at h
    exact h.1
  | some x => exact (harmless_of_held h hprog hheld).keep

/-- Every step of the traffic keeps the invariant. -/
theorem inv_step {s' : Traffic} {e : TrafficEvent} (h : s.Inv) (hexclusive : s.Exclusive e)
    (hstep : s.step P cfg e = some s') : s'.Inv := by
  cases e with
  | arrive i endpoint env req =>
    simp only [step] at hstep
    split at hstep
    · cases hstep
    · cases hstep
      refine inv_update h h.sms h.ok (fun _ hx => hx) (disciplined_handler endpoint) ?_
      intro x hx
      cases hx
  | advance i =>
    obtain ⟨t, ht, hadvance⟩ := bind_eq_some_iff.mp hstep
    unfold advance at hadvance
    split at hadvance
    · next answer hprog =>
      cases hadvance
      exact inv_end h ht hprog
    · cases hadvance
    · next op k hprog =>
      cases hadvance
      exact inv_call h ht hprog (keeps_codes (h.ok i t ht) hprog) hexclusive
  | other call =>
    cases hstep
    exact inv_other h hexclusive

/-- In every run in which no two requests have the same credential in hand at once, each
authorization code, refresh token and SMS code leads to at most one token response. -/
theorem atMostOnce_of_exclusive (P : Platform) (cfg : ServerConfig) (srv : Server)
    (es : List TrafficEvent)
    (s : Traffic) (hexclusive : Run.Along (step P cfg) Exclusive es (start srv))
    (hrun : Run.run (step P cfg) es (start srv) = some s) : s.AtMostOnce := by
  have hinv :=
    Run.invariant_of_run (fun _ _ _ h he hs => inv_step h he hs) (inv_start srv) hexclusive hrun
  refine ⟨fun hnone => ?_, hinv.nodup⟩
  obtain ⟨x, hx, -⟩ := hinv.won none hnone
  cases hx

/-! ## §6 Two requests at once -/

/-- The next call finds no credential good. -/
def Lookless (s : Traffic) : TrafficEvent → Prop
  | .arrive _ _ _ _ => True
  | .advance i => (s.threads i).all (fun t => (s.nextClaim t).isNone) = true
  | .other _ => False

instance (s : Traffic) : (e : TrafficEvent) → Decidable (s.Lookless e)
  | .arrive _ _ _ _ => .isTrue trivial
  | .advance i =>
      inferInstanceAs (Decidable ((s.threads i).all (fun t => (s.nextClaim t).isNone) = true))
  | .other _ => .isFalse id

/-- A step that finds no credential good gets in nobody's way. -/
theorem exclusive_of_lookless (s : Traffic) (e : TrafficEvent) (h : s.Lookless e) :
    s.Exclusive e := by
  cases e with
  | arrive i endpoint env req => trivial
  | advance i =>
    intro t ht x hx
    simp only [Lookless, ht, all_some, hx] at h
    cases h
  | other call => exact absurd h id

/-- A user with a phone, a code for them, their refresh token, and an SMS code. -/
def creditServer : Server :=
  let srv := sampleServer
    [{ id := 1, username := lit "ann", phone := lit "555", status := .active }]
  { srv with
    grants.codes := [
      { code := lit "c0de", clientId := lit "app", userId := 1, redirectUri := lit "https://app/cb",
        scope := []
        nonce := [], codeChallenge := [], codeChallengeMethod := [], expiresAt := 60000, used :=
          false }]
    grants.refreshTokens := [
      { tokenHash := refreshHash samplePlatform (lit "r"), userId := 1, clientId := lit "app",
        expiresAt := 60000
        issuedAt := 0, revoked := false }] }

def redeemCodeRequest : Request :=
  jsonRequest [("grant_type", lit "authorization_code"), ("code", lit "c0de"),
    ("redirect_uri", lit "https://app/cb")]

def useRefreshRequest : Request :=
    jsonRequest [("grant_type", lit "refresh_token"), ("refresh_token", lit "r")]

def smsRequest : Request := jsonRequest [("phone", lit "555"), ("code", lit "000007")]

/-- Both requests look the credential up before either goes on. -/
def overlap (endpoint : OneTimeEndpoint) (req : Request) (calls : Nat) : List TrafficEvent :=
  [.arrive 0 endpoint (sampleMoment 1) req, .arrive 1 endpoint (sampleMoment 2) req, .advance 0,
    .advance 1] ++
    List.replicate calls (.advance 0) ++ List.replicate calls (.advance 1)

/-- One request after the other. -/
def inTurn (calls : Nat) : List TrafficEvent :=
  [.arrive 0 .token (sampleMoment 1) redeemCodeRequest, .advance 0] ++
    (List.replicate calls (.advance 0) ++
      [.arrive 1 .token (sampleMoment 2) redeemCodeRequest, .advance 1, .advance 1])

theorem inTurn_exclusive :
    Run.Along (step samplePlatform sampleConfig) Exclusive (inTurn 7) (start creditServer) := by
  refine Run.Along.append ⟨trivial, fun s hs => ⟨?_, fun _ _ => trivial⟩⟩ fun s hs => ?_
  · cases hs
    intro t ht x hx j t' hj ht'
    simp [update_of_ne hj, start] at ht'
  · refine Run.Along.mono exclusive_of_lookless ?_
    have hrest : ∀ s ∈ Run.run (step samplePlatform sampleConfig)
        [.arrive 0 .token (sampleMoment 1) redeemCodeRequest, .advance 0] (start creditServer),
        Run.Along (step samplePlatform sampleConfig) Lookless (List.replicate 7 (.advance 0) ++
          [.arrive 1 .token (sampleMoment 2) redeemCodeRequest, .advance 1, .advance 1]) s := by
      decide +kernel
    exact hrest s hs

theorem code_in_turn_once : ∃ s,
    Run.run (step samplePlatform sampleConfig) (inTurn 7) (start creditServer) = some s ∧
      s.successes = [some (.code (lit "c0de"))] ∧ s.AtMostOnce := by
  refine Run.exists_some_of_any (P := fun s => s.successes = [some (.code (lit "c0de"))])
    (by decide +kernel) fun s hrun hs => ⟨hs, ?_⟩
  exact atMostOnce_of_exclusive _ _ _ _ s inTurn_exclusive hrun

/-- Two requests that look the same credential up before either takes it away both get
tokens: with a code, with a refresh token and with an SMS code. -/
theorem overlap_redeems_twice :
    (Run.run (step samplePlatform sampleConfig) (overlap .token redeemCodeRequest 7)
    (start creditServer)).map
        (fun s => s.successes) = some [some (.code (lit "c0de")), some (.code (lit "c0de"))] ∧
    (Run.run (step samplePlatform sampleConfig) (overlap .token useRefreshRequest 7)
    (start creditServer)).map
        (fun s => (s.successes.length, decide s.successes.Nodup)) = some (2, false) ∧
    (Run.run (step samplePlatform sampleConfig)
        (.other (.saveSmsCode (lit "555") (lit "000007") 60000) :: overlap .loginBySms smsRequest 6)
        (start creditServer)).map
      (fun s => s.successes) = some [some (.sms (lit "555") 0), some (.sms (lit "555") 0)] := by
  decide +kernel

end Traffic

end SsoSystem
