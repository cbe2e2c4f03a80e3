/-
SsoSystem.Http.RouteTheorems — which tables a request can write, and which
handlers can hand out tokens.

Every call writes at most one table (`Call.writes`); what a handler can call
on any path is the table `ApiHandler.writes`, and `handle_bounded` checks it
handler by handler. `serve_served` then says once what a request can do, so
that later results about all routes only look at the handlers they care for.
-/
import SsoSystem.Http.LoginTheorems
import SsoSystem.Http.Routes
import SsoSystem.Storage.GrantTheorems

namespace SsoSystem

open CMem Handling List Option Server

variable {P : Platform} {cfg : ServerConfig} {env : Moment} {s s' : Server} {a : Answer}

/-! ## §1 Tables -/

/-- The parts of the state the results about all routes are about. -/
inductive Table where
  | records | clients | codes | refreshTokens | revocations | raftLog
  deriving DecidableEq, Repr

/-- The table is the same in both states. -/
def Table.Same (s s' : Server) : Table → Prop
  | .records => s'.sys.store = s.sys.store
  | .clients => s'.grants.clients = s.grants.clients
  | .codes => s'.grants.codes = s.grants.codes
  | .refreshTokens => s'.grants.refreshTokens = s.grants.refreshTokens
  | .revocations => s'.revokedJtis = s.revokedJtis
  | .raftLog => s'.raft = s.raft

theorem Table.Same.refl (t : Table) (s : Server) : t.Same s s := by
  cases t <;> rfl

variable {t : Table}

theorem Table.Same.trans {s₁ s₂ s₃ : Server} (h : t.Same s₁ s₂) (h' : t.Same s₂ s₃) :
    t.Same s₁ s₃ := by
  cases t <;> exact Eq.trans h' h

/-- The table a call may write. -/
def Call.writes : Call → Option Table
  | .manage _ | .storeWrite _ => some .records
  | .oauthClientCreate _ | .oauthClientUpdate _ | .oauthClientDelete _ => some .clients
  | .oauthCodeCreate _ | .oauthCodeMarkUsed _ | .oauthCodeCleanup _ => some .codes
  | .refreshTokenCreate _ | .refreshTokenRevoke _ | .refreshTokenRevokeFamily _ _ =>
      some .refreshTokens
  | .tokenRevoke _ _ | .tokenRegisterSession _ _ | .jtiRevoke _ _ => some .revocations
  | .raftReceive [] => none
  | .raftReceive (_ :: _) => some .raftLog
  | _ => none

/-- A failed write leaves every table as it was. -/
theorem written_same {α : Type} {res : Except SsoError α} {put : α → Server}
    (h : ∀ x, res = .ok x → t.Same s (put x)) : t.Same s (Server.written res s put).2 := by
  cases res with
  | error err => exact .refl t s
  | ok x => exact h x rfl

/-- The client functions write the clients table only. -/
theorem clientsOnly_same (ht : t ≠ .clients) {grants : Grants}
    (h : s.grants.ClientsOnly grants) : t.Same s { s with grants } := by
  obtain ⟨clients, nextOcid, rfl⟩ := h
  cases t with
  | clients => exact absurd rfl ht
  | _ => rfl

/-- The administrative mutations write the records only. -/
theorem manage_same (ht : t ≠ .records) (m : Mutation) : t.Same s (s.manage m).2 := by
  unfold manage
  split
  · cases t with
    | records => exact absurd rfl ht
    | _ => rfl
  · exact .refl t s

/-- A permission check changes caches and counters, not the store. -/
theorem permCheck_store {V : Vendor} {h : Heap} {sys sys' : System} {now : UInt64} {uid : Nat}
    {req : CheckRequest} {r : CheckResult} (hc : permCheck V h sys now uid req = some (r, sys')) :
    sys'.store = sys.store := by
  unfold permCheck at hc
  split at hc
  · cases hc
    rfl
  · split at hc
    · cases hc
    · obtain ⟨_, -, heq⟩ := map_eq_some_iff.mp hc
      cases heq
      rfl

/-- A call leaves every table but the one it writes. -/
theorem perform_same {call : Call} (h : call.writes ≠ some t) :
    t.Same s (Server.perform call s).2 := by
  cases call with
  | manage m => exact manage_same (by rintro rfl; exact h rfl) m
  | storeWrite w =>
    refine written_same fun x _ => ?_
    cases t with
    | records => exact absurd rfl h
    | _ => rfl
  | oauthClientCreate | oauthClientUpdate | oauthClientDelete =>
    refine written_same fun g hg => clientsOnly_same (by rintro rfl; exact h rfl) ?_
    first
    | exact Grants.oauthClientCreate_clientsOnly hg
    | exact Grants.oauthClientUpdate_clientsOnly hg
    | exact Grants.oauthClientDelete_clientsOnly hg
  | tokenRotateKey secret =>
    refine written_same fun x _ => ?_
    cases t <;> rfl
  | raftReceive commands =>
    cases t with
    | raftLog =>
      cases commands with
      | nil => simp [Table.Same, perform]
      | cons c cs => exact absurd rfl h
    | _ => rfl
  | permCheck V heap now uid req =>
    simp only [perform]
    split
    · next sys hcheck =>
      cases t with
      | records => exact permCheck_store hcheck
      | _ => rfl
    · exact .refl t s
  | evaluate V heap now ctx =>
    simp only [perform]
    split
    · cases t <;> rfl
    · exact .refl t s
  | _ => cases t <;> first | rfl | exact absurd rfl h

/-! ## §2 What a handler can call -/

/-- Every call of the handler writes one of these tables at most, and unless it `issues`, no
answer hands out a token. -/
def Handling.Bounded (writes : List Table) (issues : Bool) (p : Handling) : Prop :=
  p.Within (fun call => ∀ t, call.writes = some t → t ∈ writes) fun a => issues = false →
    a.tokens = []

/-- A run of the handler leaves the other tables. -/
theorem Handling.Bounded.exec_same {ts : List Table} {issues : Bool} {p : Handling}
    (hp : p.Bounded ts issues)
    (h : p.exec Server.perform s = some (a, s')) :
    (∀ t ∉ ts, t.Same s s') ∧ (issues = false → a.tokens = []) := by
  refine Prog.Within.exec (R := fun s s' => ∀ t ∉ ts, t.Same s s') (fun s t _ => .refl t s)
    (fun s₁ s₂ s₃ h₁ h₂ t ht => (h₁ t ht).trans (h₂ t ht)) (fun call s hcall t ht => ?_) hp h
  exact perform_same fun hwrites => ht (hcall t hwrites)

section Shapes

variable {ts : List Table} {issues : Bool}

/-- An answer is allowed if it may carry tokens, or carries none. -/
@[simp, grind =] theorem bounded_ret : Bounded ts issues (.ret a) ↔
    (issues = false → a.tokens = []) := Iff.rfl

/-- A handler that never returns writes nothing more. -/
@[simp, grind .] theorem bounded_stuck : Bounded ts issues .stuck := trivial

/-- A call is allowed if its table is, and whatever it returns the rest is allowed. -/
@[simp, grind =] theorem bounded_call {c : Call} {k : c.Result → Handling} :
    Bounded ts issues (.call c k) ↔
      (∀ t, c.writes = some t → t ∈ ts) ∧ ∀ r, (k r).Bounded ts issues := Iff.rfl

@[simp, grind .] theorem bounded_fail (status : Nat) (message : String) :
    (fail status message).Bounded ts issues := fun _ => rfl

@[simp, grind .] theorem bounded_ok (body : String) : (ok body).Bounded ts issues := fun _ => rfl

@[simp, grind .] theorem bounded_failWith (err : SsoError) : (failWith err).Bounded ts issues :=
    fun _ => rfl

/-- The check for a caller adds nothing. -/
@[grind ←] theorem bounded_withAuth {auth : Option AuthUser} {k : AuthUser → Handling}
    (h : ∀ u, (k u).Bounded ts issues) : (withAuth auth k).Bounded ts issues := by
  cases auth with
  | none => exact bounded_stuck
  | some u => exact h u

variable {req : HttpRequest}

/-- Nor does the check for a body. -/
@[grind ←] theorem bounded_requireBody {k : Handling} (h : k.Bounded ts issues) :
    (requireBody req k).Bounded ts issues := by
  unfold requireBody
  split
  · exact bounded_fail _ _
  · exact h

/-- One mutation and its answer. -/
@[grind ←] theorem bounded_managing {m : Mutation} {done : String} (h : .records ∈ ts) :
    (managing m done).Bounded ts issues := by
  refine ⟨by simpa [Call.writes] using h, fun r => ?_⟩
  cases r with
  | ok id => exact bounded_ok _
  | error err => exact bounded_failWith _

/-- A record is created and its id passed on. -/
@[grind ←] theorem bounded_creating {m : Mutation} {taken failed : String} {k : Nat → Handling}
    (h : .records ∈ ts) (hk : ∀ id, (k id).Bounded ts issues) :
    (creating m taken failed k).Bounded ts issues := by
  refine ⟨by simpa [Call.writes] using h, fun r => ?_⟩
  dsimp only
  split
  · exact hk _
  · exact bounded_fail _ _
  · exact bounded_fail _ _

/-- A record is deleted by the id in the path. -/
@[grind ←] theorem bounded_deleting {id : Nat} {missing : String} {delete : Nat → Mutation}
    (h : .records ∈ ts) : (deleting id missing delete).Bounded ts issues := by
  unfold deleting
  split
  · exact bounded_fail _ _
  · exact bounded_managing h

/-- The status is written only if the body has one. -/
@[grind ←] theorem bounded_settingStatus {update : Int → Mutation} {k : Handling}
    (h : .records ∈ ts) (hk : k.Bounded ts issues) :
    (settingStatus req update k).Bounded ts issues := by
  unfold settingStatus
  split
  · exact ⟨by simpa [Call.writes] using h, fun _ => hk⟩
  · exact hk

/-- A link of a user or of a group, as the body says. -/
@[grind ←] theorem bounded_onMember {onUser onGroup : Nat → Mutation} {done : String}
    (h : .records ∈ ts) : (onMember req onUser onGroup done).Bounded ts issues := by
  unfold onMember
  split
  · exact bounded_managing h
  · split
    · exact bounded_managing h
    · exact bounded_fail _ _

/-- The two lists are only read. -/
@[grind ←] theorem bounded_withMemberships {uid : Nat} {k : List Nat → List Nat → Handling}
    (h : ∀ roles groups, (k roles groups).Bounded ts issues) :
    (withMemberships uid k).Bounded ts issues :=
  ⟨nofun, fun roles => ⟨nofun, fun groups => h roles groups⟩⟩

/-- Issuing a token writes no table; the token comes out in the answer. -/
@[grind ←] theorem bounded_issuing {args : IssueArgs} {draw : IssueEnv} {ok : Token → Handling}
    {bad : Handling} (hok : ∀ tok, (ok tok).Bounded ts issues) (hbad : bad.Bounded ts issues) :
    (issuing P args draw ok bad).Bounded ts issues := by
  refine ⟨nofun, fun ctx => ?_⟩
  dsimp only
  split
  · exact hok _
  · exact hbad

variable {user : User}

/-- An access and a refresh token. -/
@[grind ←] theorem bounded_issuePair {roles groups : List Nat} {jkt : Option Bytes}
    {badAccess badRefresh : String} {k : Token → Token → Handling}
    (h : ∀ access refresh, (k access refresh).Bounded ts issues) :
    (issuePair P env user roles groups jkt badAccess badRefresh k).Bounded ts issues :=
  bounded_issuing (fun access => bounded_issuing (h access) (bounded_fail _ _)) (bounded_fail _ _)

/-- Verifying a token writes no table. -/
@[grind ←] theorem bounded_verifying {t : Bytes} {ok : Token → Handling} {bad : Handling}
    (hok : ∀ tok, (ok tok).Bounded ts issues) (hbad : bad.Bounded ts issues) :
    (verifying P env t ok bad).Bounded ts issues := by
  refine ⟨nofun, fun ctx => ?_⟩
  dsimp only
  split
  · exact bounded_stuck
  · exact hok _
  · exact hbad

/-- A permission check writes no table. -/
@[grind ←] theorem bounded_checking {auth : AuthUser} {check : CheckRequest} :
    (checking P env req auth check).Bounded ts issues := by
  unfold checking
  dsimp only
  split
  · exact bounded_fail _ _
  · refine ⟨nofun, fun r => ?_⟩
    dsimp only
    split
    · exact bounded_stuck
    · split
      · exact bounded_failWith _
      · exact fun _ => rfl

end Shapes

/-! ## §3 Handler by handler -/

section Login

variable {r : Request} {auth : AuthUser}

/-- The session limit may revoke the oldest jti. -/
theorem passwordLogin_bounded : (passwordLogin P env r user).Bounded [.revocations] true := by
  unfold passwordLogin
  repeat' split
  · exact bounded_fail _ _
  · exact bounded_fail _ _
  · exact bounded_fail _ _
  · exact bounded_withMemberships fun roles groups =>
      bounded_issuing (fun tok => nofun) bounded_stuck
  · exact bounded_withMemberships fun roles groups => bounded_issuePair fun access refresh =>
      ⟨by simp [Call.writes], fun _ => nofun⟩

/-- The password login issues tokens and writes revocations at most. -/
theorem handleLogin_bounded : (handleLogin P cfg env r).Bounded [.revocations] true := by
  unfold handleLogin
  grind [Call.writes, passwordLogin_bounded]

/-- A phone number without a user gets one, the only record that is written. -/
theorem bounded_withPhoneUser {phone : Bytes} {k : User → Handling} {bad : Handling}
    (hk : ∀ user, (k user).Bounded [.records] true) (hbad : bad.Bounded [.records] true) :
    (withPhoneUser env phone k bad).Bounded [.records] true := by
  unfold withPhoneUser
  grind [Call.writes]

/-- The login by SMS may register its user. -/
theorem smsLogin_bounded {phone : Bytes} : (smsLogin P env phone).Bounded [.records] true := by
  refine bounded_withPhoneUser (fun user => ?_) (bounded_fail _ _)
  split
  · exact bounded_fail _ _
  · exact bounded_withMemberships fun roles groups => bounded_issuing (fun tok => nofun)
      (bounded_fail _ _)

theorem handleLoginBySms_bounded : (handleLoginBySms P env r).Bounded [.records] true := by
  unfold handleLoginBySms
  grind [Call.writes, Answer.tokens, smsLogin_bounded]

/-- A registration issues no token. -/
theorem handleRegister_bounded : (handleRegister env r).Bounded [.records] false := by
  unfold handleRegister
  repeat' split
  · exact bounded_fail _ _
  · exact bounded_fail _ _
  · refine ⟨by simp [Call.writes], fun created => ?_⟩
    dsimp only
    split
    · exact bounded_fail _ _
    · exact bounded_fail _ _
    · refine ⟨nofun, fun role => ?_⟩
      dsimp only
      split
      · exact ⟨by simp [Call.writes], fun _ _ => rfl⟩
      · refine ⟨by simp [Call.writes], fun created => ?_⟩
        dsimp only
        split
        · exact ⟨by simp [Call.writes], fun _ _ => rfl⟩
        · exact fun _ => rfl
  · exact bounded_fail _ _

/-- The second step of a login writes no table. -/
theorem handleMfaVerify_bounded : (handleMfaVerify P env r).Bounded [] true := by
  unfold handleMfaVerify
  repeat' split
  all_goals grind [Call.writes, Answer.tokens]

theorem handleWebauthnRegister_bounded : (handleWebauthnRegister P cfg r auth).Bounded [.records]
    false := by
  unfold handleWebauthnRegister
  repeat' split
  all_goals grind [Call.writes, Answer.tokens]

/-- A challenge is signed, not stored. -/
theorem handleWebauthnLoginChallenge_bounded :
    (handleWebauthnLoginChallenge P cfg env.challengeRand r).Bounded [] false := by
  unfold handleWebauthnLoginChallenge
  repeat' split
  all_goals grind [Call.writes, Answer.tokens]

theorem webauthnTokens_bounded : (webauthnTokens P env r user).Bounded [] true :=
  bounded_withMemberships fun _ _ =>
    bounded_issuing (fun _ => bounded_issuing (fun _ => nofun) bounded_stuck) bounded_stuck

/-- A WebAuthn login writes no table. -/
theorem handleWebauthnLogin_bounded : (handleWebauthnLogin P cfg env r).Bounded [] true := by
  unfold handleWebauthnLogin
  repeat' split
  all_goals grind [Call.writes, webauthnTokens_bounded]

/-- A new password revokes no session. -/
theorem handleChangePassword_bounded : (handleChangePassword env r auth).Bounded [.records]
    false := by
  unfold handleChangePassword
  repeat' split
  all_goals grind [Call.writes, Answer.tokens]

end Login

section Management

variable {req : HttpRequest} {auth : AuthUser}

/-- The keys are no table of the store. -/
theorem handleRotateKeys_bounded : (handleRotateKeys P req).Bounded [] false := by
  unfold handleRotateKeys rotated
  repeat' split
  all_goals grind [Call.writes, Answer.tokens]

theorem handleCheckPermission_bounded : (handleCheckPermission P env req auth).Bounded []
    false := by
  refine bounded_requireBody ?_
  dsimp only
  split
  · exact bounded_fail _ _
  · refine ⟨nofun, fun found => ?_⟩
    dsimp only
    split
    · exact bounded_fail _ _
    · refine ⟨nofun, fun result => ?_⟩
      dsimp only
      split
      · exact bounded_stuck
      · split
        · exact bounded_stuck
        · exact fun _ => rfl

end Management

section OAuth

variable {req : HttpRequest} {r : Request} {auth : AuthUser} {ts : List Table} {issues : Bool}

/-- The authorization endpoint writes codes only. -/
theorem handleOauthAuthorize_bounded : (handleOauthAuthorize cfg env req auth).Bounded [.codes]
    false := by
  unfold handleOauthAuthorize authorizeFor
  repeat' split
  all_goals grind [Call.writes, Answer.tokens]

theorem bounded_withActiveUser {uid : Nat} {k : User → Handling}
    (h : ∀ user, (k user).Bounded ts issues) :
    (withActiveUser uid k).Bounded ts issues := by
  unfold withActiveUser
  grind [Call.writes]

theorem bounded_withClientTtl {clientId : Bytes} {k : Int64 → Handling}
    (h : ∀ ttl, (k ttl).Bounded ts issues) :
    (withClientTtl cfg clientId k).Bounded ts issues := by
  unfold withClientTtl
  grind [Call.writes]

variable {jkt : Bytes}

theorem bounded_issueForUser {scope : Option Bytes} {clientId : Bytes} {k : Token → Handling}
    (h : ∀ tok, (k tok).Bounded ts issues) :
    (issueForUser P cfg env user scope clientId jkt k).Bounded ts issues := by
  refine ⟨nofun, fun roles =>
    ⟨nofun, fun groups => bounded_withClientTtl fun ttl => ⟨nofun, fun ctx => ?_⟩⟩⟩
  dsimp only
  split
  · exact bounded_fail _ _
  · exact h _

theorem issueForClient_bounded {clientId : Bytes} :
    (issueForClient P cfg env r clientId jkt).Bounded ts true := by
  refine bounded_withClientTtl fun ttl => ⟨nofun, fun ctx => ?_⟩
  dsimp only
  split
  · exact bounded_fail _ _
  · exact nofun

/-- A code is marked used and a refresh token stored. -/
theorem redeemCode_bounded {ac : AuthCode} :
    (redeemCode P cfg env ac jkt).Bounded [.codes, .refreshTokens] true := by
  refine ⟨by simp [Call.writes], fun _ => bounded_withActiveUser fun user =>
    bounded_issueForUser fun tok => ?_⟩
  exact ⟨by simp [Call.writes], fun _ => nofun⟩

/-- A refresh token is revoked and its successor stored. -/
theorem rotateRefresh_bounded {hash : Bytes} {rt : RefreshToken} :
    (rotateRefresh P cfg env hash rt jkt).Bounded [.codes, .refreshTokens] true := by
  refine bounded_withActiveUser fun user => bounded_issueForUser fun tok => ?_
  exact ⟨by simp [Call.writes], fun _ => ⟨by simp [Call.writes], fun _ => nofun⟩⟩

/-- The token endpoint writes codes and refresh tokens only. -/
theorem handleOauthToken_bounded :
    (handleOauthToken P cfg env r).Bounded [.codes, .refreshTokens] true := by
  unfold handleOauthToken codeGrant clientGrant refreshGrant
  repeat' split
  all_goals grind [Call.writes, redeemCode_bounded, rotateRefresh_bounded, issueForClient_bounded]

theorem endSessionAnswer_bounded (ts : List Table) :
    (endSessionAnswer cfg req).Bounded ts false := by
  unfold endSessionAnswer
  repeat' split
  all_goals grind [Call.writes, Answer.tokens]

/-- Ending a session revokes the jti of the hint at most. -/
theorem handleOauthEndSession_bounded : (handleOauthEndSession P cfg env req).Bounded [.revocations]
    false := by
  unfold handleOauthEndSession
  grind [Call.writes, endSessionAnswer_bounded]

/-- The handlers that only read the authentication state. -/
theorem bounded_accepting {handler : AuthContext → Option Reply}
    (h : ∀ ctx reply, handler ctx = some reply → issues = false → (Answer.accepted reply).tokens =
    []) :
    (accepting handler).Bounded ts issues := by
  refine ⟨nofun, fun ctx => ?_⟩
  dsimp only
  split
  · exact bounded_stuck
  · next reply hreply => exact h ctx reply hreply

end OAuth

section Raft

variable {req : HttpRequest} {r : Request}

/-- A Raft message writes the log if it carries commands. -/
theorem raftMessage_bounded {commands : Json → List Bytes} {ts : List Table}
    (h : .raftLog ∈ ts ∨ ∀ doc, commands doc = []) :
    (raftMessage env r commands).Bounded ts false := by
  refine ⟨nofun, fun inRaftMode => ?_⟩
  dsimp only
  split
  · exact bounded_failWith _
  · split
    · exact bounded_failWith _
    · next doc _ =>
      refine ⟨?_, fun _ => ?_⟩
      · rcases h with h | h
        · cases commands doc with
          | nil => nofun
          | cons c cs => simpa [Call.writes] using h
        · rw [h doc]
          nofun
      · split
        · exact bounded_failWith _
        · exact fun _ => rfl

/-- A forwarded command writes the log; its effect comes when it is applied. -/
theorem handleRaftExecute_bounded : (handleRaftExecute env req).Bounded [.raftLog] false := by
  unfold handleRaftExecute
  split
  · exact bounded_fail _ _
  · refine ⟨by simp [Call.writes], fun inRaftMode => ?_⟩
    dsimp only
    split
    · exact bounded_stuck
    · split
      · exact bounded_ok _
      · exact bounded_fail _ _

theorem handleRaftStatus_bounded : handleRaftStatus.Bounded [] false := by
  refine ⟨nofun, fun inRaftMode => ?_⟩
  dsimp only
  split
  · exact fun _ => rfl
  · exact bounded_stuck

end Raft

/-! ## §4 All handlers -/

/-- The tables a handler can write. -/
def ApiHandler.writes : ApiHandler → List Table
  | register | loginBySms | mfaEnable | webauthnRegister | changePassword
  | createUser | updateUser | deleteUser
  | createRole | updateRole | deleteRole | assignRole | unassignRole
  | createPolicy | updatePolicy | deletePolicy | assignPolicy | unassignPolicy
  | createGroup | updateGroup | deleteGroup | addGroupMember | removeGroupMember => [.records]
  | createClient | updateClient | deleteClient => [.clients]
  | login | logout | oauthRevoke | oauthEndSession => [.revocations]
  | oauthAuthorize => [.codes]
  | oauthToken => [.codes, .refreshTokens]
  | raftAppendEntries | raftExecute => [.raftLog]
  | _ => []

/-- The handlers that can hand out tokens. -/
def ApiHandler.issues : ApiHandler → Bool
  | login | loginBySms | mfaVerify | webauthnLogin | verify | refresh | oauthToken => true
  | _ => false

/-- The session check gives out no token. -/
theorem handleSessionCheck_tokens {c : Crypto} {ctx : AuthContext} {now : Int64} {r : Request}
    {reply : Reply}
    (h : handleSessionCheck c ctx now r = some reply) : (Answer.accepted reply).tokens = [] := by
  unfold handleSessionCheck at h
  split at h
  · cases h
    rfl
  · obtain ⟨res, -, rfl⟩ := map_eq_some_iff.mp h
    repeat' split
    all_goals rfl

/-- Introspection gives out no token. -/
theorem handleOauthIntrospect_tokens {c : Crypto} {ctx : AuthContext} {now : Int64} {r : Request}
    {reply : Reply} (h : handleOauthIntrospect c ctx now r = some reply) :
    (Answer.accepted reply).tokens = [] := by
  unfold handleOauthIntrospect at h
  split at h
  · cases h
    rfl
  · split at h
    · cases h
      rfl
    · obtain ⟨res, -, rfl⟩ := map_eq_some_iff.mp h
      split <;> rfl

/-- No handler calls what its table does not have. -/
theorem handle_bounded (req : HttpRequest) (auth : Option AuthUser) (h : ApiHandler) :
    (h.handle P cfg env req auth).Bounded h.writes h.issues := by
  cases h with
  | page => exact fun _ => rfl
  | login => exact handleLogin_bounded
  | loginBySms => exact handleLoginBySms_bounded
  | register => exact handleRegister_bounded
  | mfaVerify => exact handleMfaVerify_bounded
  | webauthnRegisterChallenge => exact bounded_withAuth fun _ => fun _ => rfl
  | webauthnRegister => exact bounded_withAuth fun _ => handleWebauthnRegister_bounded
  | webauthnLoginChallenge => exact handleWebauthnLoginChallenge_bounded
  | webauthnLogin => exact handleWebauthnLogin_bounded
  | verify | refresh => exact bounded_accepting fun _ _ _ => nofun
  | sessionCheck => exact bounded_accepting fun _ _ hreply _ => handleSessionCheck_tokens hreply
  | changePassword => exact bounded_withAuth fun _ => handleChangePassword_bounded
  | rotateKeys => exact handleRotateKeys_bounded
  | checkPermission => exact bounded_withAuth fun _ => handleCheckPermission_bounded
  | oauthAuthorize => exact bounded_withAuth fun _ => handleOauthAuthorize_bounded
  | oauthToken => exact handleOauthToken_bounded
  | oauthIntrospect => exact bounded_accepting fun _ _ hreply _ =>
      handleOauthIntrospect_tokens hreply
  | oauthEndSession => exact handleOauthEndSession_bounded
  | raftRequestVote => exact raftMessage_bounded (.inr fun _ => rfl)
  | raftAppendEntries => exact raftMessage_bounded (.inl mem_cons_self)
  | raftExecute => exact handleRaftExecute_bounded
  | raftStatus => exact handleRaftStatus_bounded
  -- the others are made of the shapes of §2
  | mfaEnable | logout | logoutAll | checkFunctional | checkApi | checkData | checkRbac
  | checkLocation
  | checkLbac | checkAbac =>
    refine bounded_withAuth fun auth => ?_
    simp only [handleMfaEnable, handleLogout, handleLogoutAll, handleCheckFunctional,
      handleCheckApi,
      handleCheckData, handleCheckRbac, handleCheckLocation, handleCheckLbac, handleCheckAbac,
        ApiHandler.writes]
    grind [Call.writes, Answer.tokens]
  | sendSms | oauthRevoke | createClient | updateClient | deleteClient =>
    simp only [ApiHandler.handle, handleSendSms, handleOauthRevoke, handleCreateClient,
      handleUpdateClient, handleDeleteClient, ApiHandler.writes]
    grind [Call.writes, Answer.tokens]
  | createUser | updateUser | deleteUser | createRole | updateRole | deleteRole | assignRole
  | unassignRole =>
    simp only [ApiHandler.handle, handleCreateUser, handleUpdateUser, handleDeleteUser,
      handleCreateRole,
      handleUpdateRole, handleDeleteRole, handleAssignRole, handleUnassignRole, ApiHandler.writes]
    grind [Call.writes, Answer.tokens]
  | _ =>
    simp only [ApiHandler.handle, handleCreatePolicy, handleUpdatePolicy, handleDeletePolicy,
      handleAssignPolicy, handleUnassignPolicy, handleCreateGroup, handleUpdateGroup,
        handleDeleteGroup,
      handleAddGroupMember, handleRemoveGroupMember, ApiHandler.writes]
    grind [Call.writes, Answer.tokens]

/-- What a run of a handler leaves, and when it hands out tokens. -/
theorem handle_exec {auth : Option AuthUser} {h : ApiHandler}
    (hexec : (h.handle P cfg env req auth).exec Server.perform s = some (a, s')) :
    (∀ t ∉ h.writes, t.Same s s') ∧ (h.issues = false → a.tokens = []) :=
  (handle_bounded req auth h).exec_same hexec

/-! ## §5 Requests -/

/-- The route of a request is in the table and has its method. -/
theorem mem_routes {route : ApiRoute} (h : routeOf req = some route) :
    route ∈ routes ∧ route.method = req.method := by
  have hmatch := find?_some h
  simp only [Bool.and_eq_true, beq_iff_eq] at hmatch
  exact ⟨mem_of_find?_eq_some h, hmatch.1⟩

/-- Preflight requests match no route. -/
theorem method_ne_options {route : ApiRoute} (h : routeOf req = some route) :
    req.method ≠ .options := by
  have hroutes : ∀ r ∈ routes, r.method ≠ .options := by decide
  obtain ⟨hmem, hmethod⟩ := mem_routes h
  exact hmethod ▸ hroutes route hmem

/-- The request carries an acceptable token, of this user. -/
def AuthenticatedAs (P : Platform) (s : Server) (e : HttpEvent) (auth : AuthUser) : Prop :=
  authenticateRequest P.crypto P.dpop s.auth e.env.now e.req.toRequest = some (.ok auth)

/-- The caller of a request is who `authenticate_request` says. -/
theorem authenticatedAs_of_eq {e : HttpEvent} {uid : Nat}
    (h : ((authenticateRequest P.crypto P.dpop s.auth e.env.now e.req.toRequest).bind
      Except.toOption).map
      (·.1.id) = some uid) : ∃ auth, AuthenticatedAs P s e auth ∧ auth.1.id = uid := by
  obtain ⟨auth, hauth, hid⟩ := map_eq_some_iff.mp h
  obtain ⟨res, hres, hok⟩ := bind_eq_some_iff.mp hauth
  cases res with
  | error err => cases hok
  | ok u =>
    cases hok
    exact ⟨_, hres, hid⟩

/-- What a request can do: nothing, or what its handler does. -/
inductive Served (P : Platform) (cfg : ServerConfig) (s : Server) (e : HttpEvent) : Answer →
    Server → Prop where
  | refused (a : Answer) (htokens : a.tokens = [])
      (hroute : ∀ route, routeOf e.req = some route → route.requireAuth = true) :
        Served P cfg s e a s
  | unauthenticated (a : Answer) (s' : Server) (route : ApiRoute)
      (hroute : routeOf e.req = some route)
      (hopen : route.requireAuth = false)
      (hexec : (route.handler.handle P cfg e.env e.req none).exec Server.perform s = some (a, s')) :
      Served P cfg s e a s'
  | authenticated (a : Answer) (s' : Server) (route : ApiRoute) (auth : AuthUser)
      (hroute : routeOf e.req = some route) (hneeds : route.requireAuth = true)
      (hauth : AuthenticatedAs P s e auth)
      (hexec : (route.handler.handle P cfg e.env e.req (some auth)).exec Server.perform s =
        some (a, s')) :
      Served P cfg s e a s'

/-- A request is served by its route's handler, after authentication where the route asks for it. -/
theorem serve_served {e : HttpEvent} (h : s.serve P cfg e = some (a, s')) :
    Served P cfg s e a s' := by
  unfold serve mhdAccessHandler at h
  split at h
  · next hoptions =>
    cases h
    exact .refused _ rfl fun route hroute => absurd hoptions (method_ne_options hroute)
  · split at h
    · next hnone =>
      obtain ⟨rfl, rfl⟩ := exec_fail h
      exact .refused _ rfl fun route hroute => by simp [hnone] at hroute
    · next route hroute =>
      unfold ApiRoute.serve at h
      split at h
      · next hneeds =>
        rcases exec_requireAuth h with ⟨message, rfl, rfl⟩ | ⟨auth, hauth, h⟩
        · exact .refused _ rfl fun r hr => by rw [hroute] at hr; cases hr; exact hneeds
        · exact .authenticated _ _ route auth hroute hneeds hauth h
      · next hopen => exact .unauthenticated _ _ route hroute (by simpa using hopen) h

end SsoSystem
