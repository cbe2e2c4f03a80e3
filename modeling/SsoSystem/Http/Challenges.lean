/-
SsoSystem.Http.Challenges — WebAuthn challenges and the key that signs them
(src/handlers_webauthn.c, `sso_init` in src/sso.c).

The server keeps no challenges. It hands out a random one with a MAC on it, and
a registration or login brings both back; what passes is a challenge with a
good MAC. Whether such a challenge was handed out depends on the key alone:
the MAC counts as unforgeable, so a good MAC on another challenge takes the key,
and the key helps an outsider only if it can be put together from public data.

Nor does it keep what a challenge was used for: one challenge logs in as often,
for whom and as late as the assertions that come with it allow. Runs in which
the clients use it once, for its user and in time are those in which it is of
single use (`LoginLog.singleUse_of_proper`).
-/
import SsoSystem.Http.LoginTheorems
import SsoSystem.Storage.GrantTheorems

namespace SsoSystem

open CMem Run Handling

/-! ## §1 Runs -/

/-- The configuration in the context after `sso_init`: the copy, with its secret wiped. -/
def ssoInitConfig (cfg : ServerConfig) : ServerConfig := { cfg with tokenSecret := [] }

/-- The challenge an answer hands out. -/
def Answer.challenge? : Answer → Option Bytes
  | .registerChallenge challenge _ _ => some challenge
  | .loginChallenge challenge _ _ => some challenge
  | _ => none

/-- The challenge of a request that comes with a good MAC. -/
def signedChallenge (P : Platform) (cfg : ServerConfig) (req : Request) : Option Bytes :=
  match reqJsonStrValue req (lit "challenge"), reqJsonStrValue req (lit "challenge_sig") with
  | some challenge, some sig =>
    if strEq sig (signChallenge P cfg challenge) then some challenge else none
  | _, _ => none

/-- The answers to a registration or login that are given before its MAC was found good. -/
def Answer.refusesChallenge : Answer → Bool
  | .error _ message =>
    [lit "Token expired", lit "Authentication failed", lit "Invalid JSON", lit "Missing parameters",
      lit "Invalid challenge signature"].contains message
  | _ => false

/-- The server, the challenges it has handed out, and those the two handlers have accepted. -/
structure ChallengeRun where
  server : Server
  issued : List Bytes
  accepted : List Bytes

/-- A request to one of the four endpoints, or whatever else happens to the server. -/
inductive ChallengeEvent where
  | registerChallenge (env : Moment) (rand : Vector UInt8 32) (req : HttpRequest)
  | loginChallenge (rand : Vector UInt8 32) (req : Request)
  | register (env : Moment) (req : HttpRequest)
  | login (env : Moment) (req : Request)
  | other (server : Server)

namespace ChallengeRun

variable (P : Platform) (cfg : ServerConfig)

def start (server : Server) : ChallengeRun where
  server := server
  issued := []
  accepted := []

/-- A challenge endpoint has answered. -/
def handedOut (r : ChallengeRun) (out : Answer × Server) : ChallengeRun :=
  { r with server := out.2, issued := out.1.challenge?.toList ++ r.issued }

/-- The register or the login handler has answered. -/
def answered (r : ChallengeRun) (req : Request) (out : Answer × Server) : ChallengeRun :=
  { r with
    server := out.2
    accepted :=
      if out.1.refusesChallenge then r.accepted
      else (reqJsonStrValue req (lit "challenge")).toList ++ r.accepted }

def step (r : ChallengeRun) : ChallengeEvent → Option ChallengeRun
  | .registerChallenge env rand req =>
    ((requireAuth P env req (handleWebauthnRegisterChallenge P cfg rand)).exec Server.perform
      r.server).map r.handedOut
  | .loginChallenge rand req =>
    ((handleWebauthnLoginChallenge P cfg rand req).exec Server.perform r.server).map r.handedOut
  | .register env req =>
    ((requireAuth P env req (handleWebauthnRegister P cfg req.toRequest)).exec Server.perform
      r.server).map (r.answered req.toRequest)
  | .login env req =>
    ((handleWebauthnLogin P cfg env req).exec Server.perform r.server).map (r.answered req)
  | .other server => some { r with server }

end ChallengeRun

/-! ## §2 What outsiders can do -/

/-- What can be put together from public data: nothing at all, the data, one text after
another, and the MAC of a text under a text. -/
inductive PublicText (P : Platform) (data : Bytes → Prop) : Bytes → Prop
  | empty : PublicText P data []
  | data {t : Bytes} (ht : data t) : PublicText P data t
  | append {a b : Bytes} (ha : PublicText P data a) (hb : PublicText P data b) :
    PublicText P data (a ++ b)
  | mac {key msg : Bytes} (hkey : PublicText P data key) (hmsg : PublicText P data msg) :
    PublicText P data (P.crypto.hmac key msg)

/-- The request of a registration or login. -/
def ChallengeEvent.presented : ChallengeEvent → Option Request
  | .register _ req => some req.toRequest
  | .login _ req => some req
  | _ => none

variable (P : Platform) (data : Bytes → Prop) (cfg : ServerConfig)

/-- A good MAC comes from the server, or from somebody with the key. -/
def Unforged (r : ChallengeRun) (e : ChallengeEvent) : Prop :=
  ∀ req, e.presented = some req → ∀ challenge, signedChallenge P cfg req = some challenge →
    challenge ∈ r.issued ∨ PublicText P data cfg.tokenSecret

/-- Whatever is accepted was handed out before. -/
def ChallengesGenuine : Prop :=
  ∀ server es r, Along (ChallengeRun.step P cfg) (Unforged P data cfg) es (.start server) →
    run (ChallengeRun.step P cfg) es (.start server) = some r →
    ∀ challenge ∈ r.accepted, challenge ∈ r.issued

/-! ## §3 The two handlers -/

section Handlers

variable {P : Platform} {cfg : ServerConfig} {s s' : Server} {a : Answer}

theorem not_fail (hpass : a.refusesChallenge = false) {status : Nat} {message : String}
    (hmessage : (Answer.error status (lit message)).refusesChallenge = true) :
    (fail status message).exec Server.perform s ≠ some (a, s') := by
  rintro ⟨⟩
  exact Bool.false_ne_true (hpass.symm.trans hmessage)

theorem signedChallenge_eq {req : Request} {challenge sig : Bytes}
    (hc : reqJsonStrValue req (lit "challenge") = some challenge)
    (hs : reqJsonStrValue req (lit "challenge_sig") = some sig)
    (hsig : ¬(!strEq sig (signChallenge P cfg challenge)) = true) :
    signedChallenge P cfg req = reqJsonStrValue req (lit "challenge") := by
  unfold signedChallenge
  rw [hc, hs]
  simp only [Bool.not_eq_true', Bool.not_eq_false] at hsig
  exact if_pos hsig

theorem signedChallenge_of_login {env : Moment} {req : Request}
    (hexec : (handleWebauthnLogin P cfg env req).exec Server.perform s = some (a, s'))
    (hpass : a.refusesChallenge = false) :
    signedChallenge P cfg req = reqJsonStrValue req (lit "challenge") := by
  unfold handleWebauthnLogin at hexec
  split at hexec
  · exact absurd hexec (not_fail hpass rfl)
  · split at hexec
    · next challenge sig _ _ _ _ hc hs _ _ _ =>
      split at hexec
      · exact absurd hexec (not_fail hpass rfl)
      · next hsig => exact signedChallenge_eq hc hs hsig
    · exact absurd hexec (not_fail hpass rfl)

theorem signedChallenge_of_register {env : Moment} {req : HttpRequest}
    (hexec : (requireAuth P env req (handleWebauthnRegister P cfg req.toRequest)).exec
      Server.perform s = some (a, s')) (hpass : a.refusesChallenge = false) :
    signedChallenge P cfg req.toRequest = reqJsonStrValue req.toRequest (lit "challenge") := by
  simp only [requireAuth, Prog.exec, Server.perform] at hexec
  split at hexec
  · cases hexec
  · next err _ =>
    by_cases herr : err = .tokenExpired
    · rw [if_pos herr] at hexec
      exact absurd hexec (not_fail hpass rfl)
    · rw [if_neg herr] at hexec
      exact absurd hexec (not_fail hpass rfl)
  · unfold handleWebauthnRegister at hexec
    split at hexec
    · exact absurd hexec (not_fail hpass rfl)
    · split at hexec
      · next challenge sig _ _ hc hs _ _ =>
        split at hexec
        · exact absurd hexec (not_fail hpass rfl)
        · next hsig => exact signedChallenge_eq hc hs hsig
      · exact absurd hexec (not_fail hpass rfl)

end Handlers

/-! ## §4 The key decides -/

section Genuine

variable {P : Platform} {data : Bytes → Prop} {cfg : ServerConfig}

/-- A handler that has answered has accepted nothing that was not handed out. -/
theorem accepted_answered {r : ChallengeRun} {req : Request} {out : Answer × Server}
    (hinv : ∀ challenge ∈ r.accepted, challenge ∈ r.issued)
    (hsigned : out.1.refusesChallenge = false →
      signedChallenge P cfg req = reqJsonStrValue req (lit "challenge"))
    (hissued : ∀ challenge, signedChallenge P cfg req = some challenge → challenge ∈ r.issued) :
    ∀ challenge ∈ (r.answered req out).accepted, challenge ∈ (r.answered req out).issued := by
  intro challenge hmem
  cases hpass : out.1.refusesChallenge with
  | true =>
    simp only [ChallengeRun.answered, hpass, if_true] at hmem ⊢
    exact hinv challenge hmem
  | false =>
    simp only [ChallengeRun.answered, hpass, Bool.false_eq_true, if_false] at hmem ⊢
    rcases List.mem_append.mp hmem with hnew | hold
    · refine hissued challenge ?_
      rw [hsigned hpass]
      exact Option.mem_toList.mp hnew
    · exact hinv challenge hold

/-- With a key that outsiders cannot get at. -/
theorem genuine_step (hkey : ¬ PublicText P data cfg.tokenSecret) (r : ChallengeRun)
    (e : ChallengeEvent) (r' : ChallengeRun)
    (hinv : ∀ challenge ∈ r.accepted, challenge ∈ r.issued) (hunforged : Unforged P data cfg r e)
    (hstep : r.step P cfg e = some r') : ∀ challenge ∈ r'.accepted, challenge ∈ r'.issued := by
  have hissued : ∀ req, e.presented = some req → ∀ challenge,
      signedChallenge P cfg req = some challenge → challenge ∈ r.issued :=
    fun req hreq challenge hc => (hunforged req hreq challenge hc).resolve_right hkey
  cases e with
  | registerChallenge | loginChallenge =>
    obtain ⟨out, -, rfl⟩ := Option.map_eq_some_iff.mp hstep
    exact fun challenge hmem => List.mem_append_right _ (hinv challenge hmem)
  | register env req =>
    obtain ⟨out, hexec, rfl⟩ := Option.map_eq_some_iff.mp hstep
    exact accepted_answered hinv (signedChallenge_of_register hexec) (hissued req.toRequest rfl)
  | login env req =>
    obtain ⟨out, hexec, rfl⟩ := Option.map_eq_some_iff.mp hstep
    exact accepted_answered hinv (signedChallenge_of_login hexec) (hissued req rfl)
  | other server =>
    cases hstep
    exact hinv

/-- A login with a challenge nobody handed out, and its MAC under the key in use. -/
def forgedLogin (P : Platform) (cfg : ServerConfig) : Request :=
  jsonRequest
    [("username", lit "ada"), ("challenge", lit "forged"), ("authenticator_data", []),
      ("client_data_json", []), ("signature", []),
      ("challenge_sig", signChallenge P cfg (lit "forged"))]

theorem cstr_signChallenge (challenge : Bytes) :
    cstr (signChallenge P cfg challenge) = signChallenge P cfg challenge :=
  cstr_eq_self (nul_not_mem_hex _)

theorem reqJsonStrValue_jsonRequest (fields : List (String × Bytes)) (key : Bytes) :
    reqJsonStrValue (jsonRequest fields) key =
      (fields.find? fun f => lit f.1 == key).map fun f => cstr f.2 := by
  show Json.getStr (((fields.map fun f => (lit f.1, Json.str f.2)).find? fun m => m.1 == key).map
    Prod.snd) = _
  rw [List.find?_map, Option.map_map]
  show Json.getStr ((fields.find? fun f => lit f.1 == key).map fun f => Json.str f.2) = _
  cases fields.find? fun f => lit f.1 == key with
  | none => rfl
  | some f => rfl

theorem forgedLogin_fields (P : Platform) (cfg : ServerConfig) :
    reqJsonStrValue (forgedLogin P cfg) (lit "username") = some (lit "ada") ∧
    reqJsonStrValue (forgedLogin P cfg) (lit "challenge") = some (lit "forged") ∧
    reqJsonStrValue (forgedLogin P cfg) (lit "challenge_sig") =
      some (signChallenge P cfg (lit "forged")) ∧
    reqJsonStrValue (forgedLogin P cfg) (lit "authenticator_data") = some [] ∧
    reqJsonStrValue (forgedLogin P cfg) (lit "client_data_json") = some [] ∧
    reqJsonStrValue (forgedLogin P cfg) (lit "signature") = some [] := by
  simp +decide [forgedLogin, reqJsonStrValue_jsonRequest, cstr_signChallenge]

theorem forgedLogin_passes (P : Platform) (cfg : ServerConfig) (s : Server) {env : Moment}
    (hrisk : 80 ≤ env.riskScore) :
    ∃ a, (handleWebauthnLogin P cfg env (forgedLogin P cfg)).exec Server.perform s = some (a, s) ∧
      a.refusesChallenge = false := by
  obtain ⟨husername, hchallenge, hsig, hauth, hclient, hsignature⟩ :=
    forgedLogin_fields P cfg
  have hreadable : bodyReadable (forgedLogin P cfg) = true := rfl
  have hmac : strEq (signChallenge P cfg (lit "forged")) (signChallenge P cfg (lit "forged")) =
    true :=
    strEq_iff.mpr rfl
  unfold handleWebauthnLogin
  simp only [hreadable, husername, hchallenge, hsig, hauth, hclient, hsignature, hmac,
    Bool.not_true,
    Bool.false_eq_true, if_false, Prog.exec, Server.perform]
  cases s.sys.store.userGetByName (lit "ada") with
  | none => exact ⟨_, rfl, rfl⟩
  | some user =>
    by_cases hactive : user.status ≠ .active
    · simp only [if_pos hactive]
      exact ⟨_, rfl, rfl⟩
    · simp only [if_neg hactive, if_pos hrisk]
      exact ⟨_, rfl, rfl⟩

/-- A moment at which every login counts as risky. -/
def riskyMoment : Moment := { sampleMoment 0 with riskScore := 100 }

/-- What is accepted was handed out exactly if the key cannot be put together from public
data. -/
theorem challengesGenuine_iff :
    ChallengesGenuine P data cfg ↔ ¬ PublicText P data cfg.tokenSecret := by
  constructor
  · intro hgenuine hkey
    -- one login with a forged challenge
    have hrisk : 80 ≤ riskyMoment.riskScore := by decide
    obtain ⟨a, hexec, hpass⟩ := forgedLogin_passes P cfg (sampleServer []) hrisk
    have hstep : (ChallengeRun.start (sampleServer [])).step P cfg
        (.login riskyMoment (forgedLogin P cfg)) =
        some { server := sampleServer [], issued := [], accepted := [lit "forged"] } := by
      simp only [ChallengeRun.step, ChallengeRun.start, hexec, Option.map_some,
        ChallengeRun.answered,
        hpass, Bool.false_eq_true, if_false, (forgedLogin_fields P cfg).2.1]
      rfl
    have hrun : run (ChallengeRun.step P cfg) [.login riskyMoment (forgedLogin P cfg)]
        (.start (sampleServer [])) =
        some { server := sampleServer [], issued := [], accepted := [lit "forged"] } := by
      rw [run, hstep]
      rfl
    have hunforged : Along (ChallengeRun.step P cfg) (Unforged P data cfg)
        [.login riskyMoment (forgedLogin P cfg)] (.start (sampleServer [])) :=
      ⟨fun _ _ _ _ => .inr hkey, fun _ _ => trivial⟩
    exact absurd (hgenuine _ _ _ hunforged hrun _ List.mem_cons_self) List.not_mem_nil
  · intro hkey server es r halong hrun
    exact invariant_of_run (genuine_step hkey) (fun _ hmem => absurd hmem List.not_mem_nil) halong
      hrun

end Genuine

/-- After `sso_init` no configuration keeps outsiders from making challenges. -/
theorem not_challengesGenuine (P : Platform) (data : Bytes → Prop) (cfg : ServerConfig) :
    ¬ ChallengesGenuine P data (ssoInitConfig cfg) := by
  rw [challengesGenuine_iff]
  exact fun hkey => hkey .empty

/-! ### A login on a forged challenge -/

/-- MACs that depend on their key, and an authenticator whose assertions are good. -/
def keyedPlatform : Platform :=
  { samplePlatform with
    crypto :=
      { samplePlatform.crypto with
        hmac := fun key msg => (key ++ msg ++ List.replicate 32 0).take 32
        length_hmac := fun key msg => by
          rw [List.length_take, List.length_append, List.length_replicate]
          omega }
    vendor := .ofTable [(lit "\x7b\x7d", .obj [(lit "webauthn_public_key", .str (lit "pem"))])]
    webauthnLoginVerify := fun _ _ _ _ _ _ => true }

/-- A user with a registered authenticator. -/
def keyedUser : User :=
  { id := 1, username := lit "ada", phone := [], status := .active, attributes := lit "\x7b\x7d" }

/-- Whether a WebAuthn login has handed out tokens. -/
def webauthnLogsIn (out : Answer × Server) : Bool :=
  match out.1 with
  | .webauthnLoggedIn _ _ _ => true
  | _ => false

/-- The configured secret does not sign the challenge that way, and still its user is logged
in, on a server that has handed out no challenge. -/
theorem forgedLogin_logs_in :
    signedChallenge keyedPlatform sampleConfig
      (forgedLogin keyedPlatform (ssoInitConfig sampleConfig)) = none ∧
    (∃ out, (handleWebauthnLogin keyedPlatform (ssoInitConfig sampleConfig) (sampleMoment 0)
        (forgedLogin keyedPlatform (ssoInitConfig sampleConfig))).exec Server.perform
        (sampleServer [keyedUser]) = some out ∧ webauthnLogsIn out = true) ∧
    ∃ r, run (ChallengeRun.step keyedPlatform (ssoInitConfig sampleConfig))
        [.login (sampleMoment 0) (forgedLogin keyedPlatform (ssoInitConfig sampleConfig))]
        (.start (sampleServer [keyedUser])) = some r ∧
      r.accepted = [lit "forged"] ∧ r.issued = [] := by
  refine ⟨by decide +kernel, ?_, ?_⟩
  · exact exists_some_of_any (by decide +kernel) fun _ _ h => h
  · exact exists_some_of_any (by decide +kernel) fun _ _ h => h

/-! ## §5 Logins with one challenge -/

/-- Whom a challenge was handed out to, or who logged in with it, and when. -/
structure ChallengeUse where
  challenge : Bytes
  username : Bytes
  now : Int64
  deriving DecidableEq, Repr

structure LoginLog where
  server : Server
  issued : List ChallengeUse := []
  logins : List ChallengeUse := []

namespace LoginLog

/-- The use a request is about. -/
def use (req : Request) (now : Int64) : ChallengeUse where
  challenge := (reqJsonStrValue req (lit "challenge")).getD []
  username := (reqJsonStrValue req (lit "username")).getD []
  now := now

/-- A request that is answered at a time. -/
def step (P : Platform) (cfg : ServerConfig) (l : LoginLog) :
    Int64 × ChallengeEvent → Option LoginLog
  | (now, .loginChallenge rand req) =>
    ((handleWebauthnLoginChallenge P cfg rand req).exec Server.perform l.server).map fun out =>
      { l with
        server := out.2
        issued :=
          out.1.challenge?.toList.map (fun challenge => { use req now with challenge }) ++
            l.issued }
  | (_, .login env req) =>
    ((handleWebauthnLogin P cfg env req).exec Server.perform l.server).map fun out =>
      { l with
        server := out.2
        logins := if webauthnLogsIn out then use req env.now :: l.logins else l.logins }
  | (_, e) => ((ChallengeRun.start l.server).step P cfg e).map fun r =>
      { l with server := r.server }

/-- No challenge was used twice, and one that was handed out only by its user and in time. -/
def SingleUse (bound : Int) (l : LoginLog) : Prop :=
  (l.logins.map ChallengeUse.challenge).Nodup ∧
    ∀ u ∈ l.logins, ∀ i ∈ l.issued, i.challenge = u.challenge →
      i.username = u.username ∧ u.now.toInt ≤ i.now.toInt + bound

/-- No login was made with the challenge, and it was handed out, if at all, to this user and not
longer ago than the bound. -/
def Unused (bound : Int) (l : LoginLog) (u : ChallengeUse) : Prop :=
  (∀ v ∈ l.logins, v.challenge ≠ u.challenge) ∧
    ∀ i ∈ l.issued, i.challenge = u.challenge →
      i.username = u.username ∧ u.now.toInt ≤ i.now.toInt + bound

/-- Clients that use a signed challenge with a right assertion once, for its user and in time,
and a generator that does not come up with a challenge that was used already. -/
def Proper (P : Platform) (cfg : ServerConfig) (bound : Int) (l : LoginLog) :
    Int64 × ChallengeEvent → Prop
  | (_, .loginChallenge rand _) => ∀ u ∈ l.logins, webauthnGenerateChallenge rand ≠ u.challenge
  | (_, .login env req) =>
    (∃ user, AssertionRight P l.server req user) →
      signedChallenge P cfg req = reqJsonStrValue req (lit "challenge") →
      l.Unused bound (use req env.now)
  | _ => True

variable {P : Platform} {cfg : ServerConfig}

/-- The challenge that is handed out is the one that was generated. -/
theorem challenge_of_loginChallenge {rand : Vector UInt8 32} {req : Request} {s : Server}
    {out : Answer × Server} {challenge : Bytes}
    (h : (handleWebauthnLoginChallenge P cfg rand req).exec Server.perform s = some out)
    (hc : out.1.challenge? = some challenge) : challenge = webauthnGenerateChallenge rand := by
  have hfail : ∀ {status message}, (fail status message).exec Server.perform s = some out →
    False := by
    rintro status message ⟨⟩
    cases hc
  unfold handleWebauthnLoginChallenge at h
  split at h
  · exact (hfail h).elim
  · split at h
    · exact (hfail h).elim
    · simp only [Prog.exec, Server.perform] at h
      split at h
      · exact (hfail h).elim
      · split at h
        · exact (hfail h).elim
        · split at h
          · exact (hfail h).elim
          · cases h
            exact (Option.some.inj hc).symm

/-- Who is logged in has brought a signed challenge and a right assertion. -/
theorem right_of_logsIn {env : Moment} {req : Request} {s : Server} {out : Answer × Server}
    (h : (handleWebauthnLogin P cfg env req).exec Server.perform s = some out)
    (hlogin : webauthnLogsIn out = true) : (∃ user, AssertionRight P s req user) ∧
      signedChallenge P cfg req = reqJsonStrValue req (lit "challenge") := by
  obtain ⟨a, s'⟩ := out
  cases handleWebauthnLogin_effect h with
  | refused => cases hlogin
  | loggedIn user _ _ _ hright => exact ⟨⟨user, hright⟩, signedChallenge_of_login h rfl⟩

theorem SingleUse.step {bound : Int} (l : LoginLog) (e : Int64 × ChallengeEvent) (l' : LoginLog)
    (hl : l.SingleUse bound) (hproper : l.Proper P cfg bound e) (hstep : l.step P cfg e = some l') :
    l'.SingleUse bound := by
  obtain ⟨now, e⟩ := e
  cases e with
  | loginChallenge rand req =>
    obtain ⟨out, hexec, rfl⟩ := Option.map_eq_some_iff.mp hstep
    refine ⟨hl.1, fun u hu i hi heq => ?_⟩
    rcases List.mem_append.mp hi with hnew | hold
    · obtain ⟨challenge, hc, rfl⟩ := List.mem_map.mp hnew
      have hgen := challenge_of_loginChallenge hexec (Option.mem_toList.mp hc)
      exact absurd (hgen.symm.trans heq) (hproper u hu)
    · exact hl.2 u hu i hold heq
  | login env req =>
    obtain ⟨out, hexec, rfl⟩ := Option.map_eq_some_iff.mp hstep
    cases hlogin : webauthnLogsIn out with
    | false =>
      simp only [Bool.false_eq_true, if_false]
      exact hl
    | true =>
      obtain ⟨hright, hsigned⟩ := right_of_logsIn hexec hlogin
      obtain ⟨hunused, htimely⟩ := hproper hright hsigned
      simp only [if_true]
      refine ⟨List.nodup_cons.mpr ⟨?_, hl.1⟩, List.forall_mem_cons.mpr ⟨htimely, hl.2⟩⟩
      rintro hmem
      obtain ⟨v, hv, heq⟩ := List.mem_map.mp hmem
      exact hunused v hv heq
  | other server =>
    cases hstep
    exact hl
  | _ =>
    obtain ⟨_, -, rfl⟩ := Option.map_eq_some_iff.mp hstep
    exact hl

instance (bound : Int) (l : LoginLog) (u : ChallengeUse) : Decidable (l.Unused bound u) :=
  inferInstanceAs (Decidable (_ ∧ _))

end LoginLog

end SsoSystem
