/-
SsoSystem.Http.RefreshFamily — refresh tokens over runs of the token endpoint.

A run is a sequence of token requests, with anything else the server does in
between: only the token endpoint writes the table of refresh tokens. Beside
the server the run keeps what an observer has seen: the refresh tokens handed
out with the user and client they were issued to, the ones that were answered
with new tokens, and the ones that a replay has barred.
-/
import SsoSystem.Http.OAuthTheorems
import SsoSystem.Storage.GrantTheorems
import SsoSystem.Storage.MemoryTheorems

namespace SsoSystem

open CMem Handling List Option Grants

/-! ## §1 Runs -/

/-- A refresh token that was handed out, with the pair it was issued to. -/
structure RefreshIssue where
  token : Bytes
  userId : Nat
  clientId : Bytes
  deriving DecidableEq, Repr

def RefreshIssue.family (i : RefreshIssue) : Nat × Bytes := (i.userId, i.clientId)

/-- The server, and what has been seen of its refresh tokens. -/
structure FamilyRun where
  srv : Server
  issued : List RefreshIssue
  used : List Bytes
  barred : List Bytes

/-- A token request, or anything else that happens to the server. -/
inductive TokenEvent where
  | token (env : Moment) (req : Request)
  | other (srv : Server)

/-- The refresh token a request presents: it names the refresh grant, and its DPoP proof, if
it has one, is valid. -/
def presentedRefresh (P : Platform) (cfg : ServerConfig) (req : Request) : Option Bytes :=
  if cstr cfg.oauthClientId ≠ [] ∧ req.hasBody = true ∧ (requestJkt P req).isSome = true ∧
      reqJsonStrValue req (lit "grant_type") = some (lit "refresh_token") then
    reqJsonStrValue req (lit "refresh_token")
  else none

namespace FamilyRun

variable (P : Platform) (cfg : ServerConfig)

/-- Any server, before its first refresh token. -/
def start (srv : Server) : FamilyRun where
  srv := { srv with grants.refreshTokens := [] }
  issued := []
  used := []
  barred := []

variable (s : FamilyRun) (env : Moment) (req : Request)

/-- The token handed out that a text stands for. The server tells tokens by their hash. -/
def known (t : Bytes) : Option RefreshIssue :=
  s.issued.find? fun i => P.sha256 i.token == P.sha256 t

/-- The refresh token in an answer: it belongs to the user and client of the code, or to the
pair of the token it replaces. -/
def newIssue : Answer → Option RefreshIssue
  | .codeTokens tok _ _ =>
    ((reqJsonStrValue req (lit "code")).bind s.srv.grants.oauthCodeGet).map fun ac =>
      { token := tok.rawRefreshToken, userId := ac.userId, clientId := strlcpy 64 ac.clientId }
  | .refreshedTokens tok =>
    ((reqJsonStrValue req (lit "refresh_token")).bind (s.known P)).map fun i =>
      { i with token := tok.rawRefreshToken }
  | _ => none

/-- The refresh token that a successful answer used up. -/
def newUsed : Answer → List Bytes
  | .refreshedTokens _ => (presentedRefresh P cfg req).toList
  | _ => []

/-- Presenting a used token again bars every token its pair holds. -/
def newBarred : List Bytes :=
  match presentedRefresh P cfg req with
  | none => []
  | some t =>
    if s.used.contains t then
      (s.known P t).toList.flatMap fun j =>
        (s.issued.filter fun i => i.family = j.family).map RefreshIssue.token
    else []

/-- The run after a token request with this outcome. -/
def answered (r : Answer × Server) : FamilyRun where
  srv := r.2
  issued := s.issued ++ (s.newIssue P req r.1).toList
  used := s.used ++ newUsed P cfg req r.1
  barred := s.barred ++ s.newBarred P cfg req

/-- What the endpoint does with a request now. -/
def outcome : Option (Answer × Server) :=
  (handleOauthToken P cfg env req).exec Server.perform s.srv

def step (s : FamilyRun) : TokenEvent → Option FamilyRun
  | .token env req => (s.outcome P cfg env req).map (s.answered P cfg req)
  | .other srv =>
      some { s with srv := { srv with grants.refreshTokens := s.srv.grants.refreshTokens } }

/-- A refresh token that is handed out was not handed out before, and SHA-256 tells it from
those that were. -/
def Fresh (s : FamilyRun) : TokenEvent → Prop
  | .token env req =>
    ∀ r ∈ s.outcome P cfg env req, ∀ i ∈ s.newIssue P req r.1, ∀ j ∈ s.issued,
      j.token ≠ i.token ∧ (P.sha256 j.token = P.sha256 i.token → j.token = i.token)
  | .other _ => True

instance (e : TokenEvent) : Decidable (s.Fresh P cfg e) := by
  cases e <;> dsimp only [Fresh] <;> infer_instance

/-- The rule of refresh-token families, for a request that comes in this state. -/
structure FamilyRule (s : FamilyRun) (env : Moment) (req : Request) : Prop where
  /-- A used token belongs to a pair. -/
  known : ∀ t ∈ s.used, (s.known P t).isSome
  /-- Used and barred tokens do not succeed. -/
  once : ∀ t tok srv, presentedRefresh P cfg req = some t →
    s.outcome P cfg env req = some (.refreshedTokens tok, srv) → t ∉ s.used ∧ t ∉ s.barred
  /-- A replay leaves the tokens of other pairs as they are. -/
  others : ∀ t j r, presentedRefresh P cfg req = some t → t ∈ s.used → s.known P t = some j →
    s.outcome P cfg env req = some r → ∀ i ∈ s.issued, i.family ≠ j.family →
      r.2.grants.refreshTokenGet (refreshHash P i.token) =
        s.srv.grants.refreshTokenGet (refreshHash P i.token)

end FamilyRun

/-! ## §2 The ledger -/

theorem refreshHash_inj {P : Platform} {t t' : Bytes}
    (h : strEq (refreshHash P t) (refreshHash P t') = true) : P.sha256 t = P.sha256 t' := by
  rw [strEq_iff, refreshHash, refreshHash, cstr_eq_self (nul_not_mem_hex _),
    cstr_eq_self (nul_not_mem_hex _)] at h
  exact flatMap_hexByte_injective h

/-- Every token handed out has its row, under its own pair, and a used or barred one is
revoked. -/
structure Ledger (P : Platform) (g : Grants) (issued : List RefreshIssue) (spent : List Bytes) :
    Prop where
  rows : ∀ i ∈ issued, ∃ rt, g.refreshTokenGet (refreshHash P i.token) = some rt ∧
    rt.userId = i.userId ∧ rt.clientId = i.clientId
  keys : ∀ rt ∈ g.refreshTokens, ∃ i ∈ issued, rt.tokenHash = refreshHash P i.token
  clean : ∀ i ∈ issued, ∃ c, i.clientId = strlcpy 64 c
  spent : ∀ t ∈ spent, g.RefreshSpent (refreshHash P t)

namespace Ledger

variable {P : Platform} {g g' : Grants} {issued : List RefreshIssue} {spent : List Bytes}

theorem congr (h : Ledger P g issued spent) (heq : g'.refreshTokens = g.refreshTokens) :
    Ledger P g' issued spent := by
  have hget : g'.refreshTokenGet = g.refreshTokenGet := by
    funext hash
    rw [refreshTokenGet, heq]
    rfl
  refine ⟨?_, heq ▸ h.keys, h.clean, ?_⟩
  · rw [hget]
    exact h.rows
  · intro t ht
    rw [Grants.RefreshSpent, hget]
    exact h.spent t ht

theorem revokeFamily (h : Ledger P g issued spent) (userId : Nat) (clientId : Bytes) :
    Ledger P (g.refreshTokenRevokeFamily userId clientId) issued spent := by
  refine ⟨fun i hi => ?_, fun rt hrt => ?_, h.clean, fun t ht =>
    (h.spent t ht).revokeFamily userId clientId⟩
  · obtain ⟨rt, hget, huser, hclient⟩ := h.rows i hi
    refine ⟨_, by rw [refreshTokenGet_revokeFamily, hget]; rfl, ?_⟩
    dsimp only
    split <;> exact ⟨huser, hclient⟩
  · obtain ⟨old, hold, rfl⟩ := mem_map.mp hrt
    obtain ⟨i, hi, hkey⟩ := h.keys old hold
    refine ⟨i, hi, ?_⟩
    split <;> exact hkey

theorem revoke (h : Ledger P g issued spent) (hash : Bytes) :
    Ledger P (g.refreshTokenRevoke hash) issued spent := by
  refine ⟨fun i hi => ?_, fun rt hrt => ?_, h.clean, fun t ht => (h.spent t ht).revoke hash⟩
  · obtain ⟨rt, hget, huser, hclient⟩ := h.rows i hi
    rcases refreshTokenGet_revoke (g := g) hash (refreshHash P i.token) with heq | heq
    · exact ⟨rt, heq.trans hget, huser, hclient⟩
    · exact ⟨{ rt with revoked := true }, by rw [heq, hget]; rfl, huser, hclient⟩
  · obtain ⟨old, hold, hrt⟩ := mem_updateFirst hrt
    obtain ⟨i, hi, hkey⟩ := h.keys old hold
    rcases hrt with rfl | rfl
    · exact ⟨i, hi, hkey⟩
    · exact ⟨i, hi, hkey⟩

theorem create (h : Ledger P g issued spent) (i : RefreshIssue) (rt : RefreshToken)
    (hhash : rt.tokenHash = refreshHash P i.token) (huser : rt.userId = i.userId)
    (hclient : rt.clientId = i.clientId) (hclean : ∃ c, i.clientId = strlcpy 64 c)
    (hfresh : ∀ j ∈ issued, P.sha256 j.token ≠ P.sha256 i.token) :
    Ledger P (g.refreshTokenCreate rt) (issued ++ [i]) spent := by
  have hnone : g.refreshTokenGet (refreshHash P i.token) = none := by
    rw [refreshTokenGet, find?_eq_none]
    intro old hold heq
    obtain ⟨j, hj, hkey⟩ := h.keys old hold
    rw [hkey] at heq
    exact hfresh j hj (refreshHash_inj heq)
  refine ⟨fun j hj => ?_, fun old hold => ?_, fun j hj => ?_, fun t ht => (h.spent t ht).create rt⟩
  · rcases mem_append.mp hj with hj | hj
    · obtain ⟨old, hget, hpair⟩ := h.rows j hj
      exact ⟨old, by simp [refreshTokenGet_create, hget], hpair⟩
    · rw [mem_singleton.mp hj]
      exact ⟨rt, by simp [refreshTokenGet_create, hnone, hhash, strEq], huser, hclient⟩
  · rcases mem_append.mp hold with hold | hold
    · obtain ⟨j, hj, hkey⟩ := h.keys old hold
      exact ⟨j, mem_append_left _ hj, hkey⟩
    · rw [mem_singleton.mp hold]
      exact ⟨i, by simp, hhash⟩
  · rcases mem_append.mp hj with hj | hj
    · exact h.clean j hj
    · rw [mem_singleton.mp hj]
      exact hclean

theorem spend (h : Ledger P g issued spent) {more : List Bytes}
    (hmore : ∀ t ∈ more, t ∈ spent ∨ g.RefreshSpent (refreshHash P t)) : Ledger P g issued more :=
  ⟨h.rows, h.keys, h.clean, fun t ht => (hmore t ht).elim (h.spent t) id⟩

end Ledger

namespace FamilyRun

variable {P : Platform} {cfg : ServerConfig} {s : FamilyRun} {env : Moment} {req : Request}

def Inv (P : Platform) (s : FamilyRun) : Prop := Ledger P s.srv.grants s.issued (s.used ++ s.barred)

variable {rt : RefreshToken} {t : Bytes} {r : Answer × Server}

/-- A text with a row stands for a token of the row's pair. -/
theorem known_of_get {g : Grants} {spent : List Bytes} (h : Ledger P g s.issued spent)
    (hget : g.refreshTokenGet (refreshHash P t) = some rt) :
    ∃ j, s.known P t = some j ∧ j ∈ s.issued ∧ rt.userId = j.userId ∧ rt.clientId = j.clientId := by
  obtain ⟨i, hi, hkey⟩ := h.keys rt (mem_of_find?_eq_some hget)
  have hmatch : strEq rt.tokenHash (refreshHash P t) = true := by
    simpa only using find?_some hget
  have hsame : P.sha256 i.token = P.sha256 t := refreshHash_inj (hkey ▸ hmatch)
  obtain ⟨j, hj⟩ : ∃ j, s.known P t = some j :=
    isSome_iff_exists.mp (find?_isSome.mpr ⟨i, hi, by simp [hsame]⟩)
  have hhash : P.sha256 j.token = P.sha256 t := by simpa using find?_some hj
  obtain ⟨rt', hget', hpair⟩ := h.rows j (mem_of_find?_eq_some hj)
  rw [refreshHash, hhash, ← refreshHash, hget] at hget'
  cases hget'
  exact ⟨j, hj, mem_of_find?_eq_some hj, hpair⟩

/-! ## §3 One request -/

theorem presentedRefresh_iff :
    presentedRefresh P cfg req = some t ↔ PresentsRefresh P cfg req t := by
  unfold presentedRefresh
  constructor
  · intro h
    split at h
    · next hc =>
      obtain ⟨jkt, hjkt⟩ := isSome_iff_exists.mp hc.2.2.1
      exact ⟨⟨jkt, hc.1, hc.2.1, hjkt, hc.2.2.2⟩, h⟩
    · cases h
  · rintro ⟨⟨jkt, hreach⟩, ht⟩
    rw [if_pos ⟨hreach.configured, hreach.body, by simp [hreach.proof], hreach.grant⟩, ht]

/-- A presented token whose row is revoked takes its whole family with it. -/
theorem outcome_of_spent (hpresented : presentedRefresh P cfg req = some t)
    (hget : s.srv.grants.refreshTokenGet (refreshHash P t) = some rt)
    (hrevoked : rt.revoked = true) :
    s.outcome P cfg env req = some (.error 400 (lit "invalid_grant"),
      { s.srv with grants := s.srv.grants.refreshTokenRevokeFamily rt.userId rt.clientId }) := by
  obtain ⟨⟨jkt, hreach⟩, ht⟩ := presentedRefresh_iff.mp hpresented
  have hcode : lit "refresh_token" ≠ lit "authorization_code" := by decide
  have hclient : lit "refresh_token" ≠ lit "client_credentials" := by decide
  simp only [outcome, handleOauthToken, hreach.configured, hreach.body, hreach.proof, hreach.grant,
    hcode,
    hclient, refreshGrant, ht, Prog.exec, Server.perform, hget, hrevoked, Handling.fail, if_false,
      if_true,
    Bool.not_true, Bool.false_eq_true]

theorem outcome_of_used (env : Moment) (h : s.Inv P)
    (hpresented : presentedRefresh P cfg req = some t)
    (ht : t ∈ s.used ++ s.barred) :
    ∃ j, s.known P t = some j ∧ j ∈ s.issued ∧
      s.outcome P cfg env req = some (.error 400 (lit "invalid_grant"),
        { s.srv with grants := s.srv.grants.refreshTokenRevokeFamily j.userId j.clientId }) := by
  obtain ⟨rt, hget, hrevoked⟩ := h.spent t ht
  obtain ⟨j, hknown, hj, huser, hclient⟩ := known_of_get h hget
  refine ⟨j, hknown, hj, ?_⟩
  rw [outcome_of_spent hpresented hget hrevoked, huser, hclient]

theorem familyRule_of_inv (h : s.Inv P) : s.FamilyRule P cfg env req where
  known := by
    intro t ht
    obtain ⟨rt, hget, -⟩ := h.spent t (mem_append_left _ ht)
    obtain ⟨j, hknown, -⟩ := known_of_get h hget
    simp [hknown]
  once := by
    intro t tok srv hpresented hout
    rw [← not_or, ← mem_append]
    intro ht
    obtain ⟨j, -, -, houtcome⟩ := outcome_of_used env h hpresented ht
    rw [houtcome] at hout
    cases hout
  others := by
    intro t j r hpresented ht hknown hout i hi hne
    obtain ⟨j', hknown', hj, houtcome⟩ := outcome_of_used env h hpresented (mem_append_left _ ht)
    rw [hknown] at hknown'
    cases hknown'
    rw [houtcome] at hout
    cases hout
    obtain ⟨rt, hget, huser, hclient⟩ := h.rows i hi
    rw [refreshTokenGet_revokeFamily, hget, map_some, if_neg]
    -- both client ids are C strings, so that equal ones are the same text
    obtain ⟨c, hc⟩ := h.clean i hi
    obtain ⟨c', hc'⟩ := h.clean j hj
    rw [Bool.and_eq_true, beq_iff_eq, strEq_iff, huser, hclient, hc, hc',
      cstr_eq_self (not_mem_strlcpy _ _),
      cstr_eq_self (not_mem_strlcpy _ _), ← hc, ← hc']
    rintro ⟨hu, hcl⟩
    exact hne (Prod.ext hu hcl)

/-! ## §4 Runs -/

theorem newBarred_of_not_used (h : ∀ t, presentedRefresh P cfg req = some t → t ∉ s.used) :
    s.newBarred P cfg req = [] := by
  unfold newBarred
  split
  · rfl
  · next t ht => rw [if_neg (by simpa using h t ht)]

theorem inv_replay (h : s.Inv P) (hpresented : presentedRefresh P cfg req = some t)
    (ht : t ∈ s.used) (hout : s.outcome P cfg env req = some r) :
    (s.answered P cfg req r).Inv P := by
  obtain ⟨j, hknown, hj, houtcome⟩ := outcome_of_used env h hpresented (List.mem_append_left _ ht)
  rw [houtcome] at hout
  cases hout
  have hbarred : s.newBarred P cfg req =
      (s.issued.filter fun i => i.family = j.family).map RefreshIssue.token := by
    simp [newBarred, hpresented, ht, hknown]
  have hledger := Ledger.revokeFamily h j.userId j.clientId
  simp only [Inv, answered, newIssue, newUsed, hbarred, Option.toList_none, List.append_nil]
  refine hledger.spend fun x hx => ?_
  rw [← List.append_assoc, List.mem_append] at hx
  rcases hx with hx | hx
  · exact .inl hx
  · simp only [List.mem_map, List.mem_filter, decide_eq_true_eq] at hx
    obtain ⟨i, ⟨hi, hfamily⟩, rfl⟩ := hx
    obtain ⟨rt, hget, huser, hclient⟩ := Ledger.rows h i hi
    obtain ⟨hu, hc⟩ := Prod.ext_iff.mp hfamily
    exact .inr (refreshSpent_revokeFamily hget (huser.trans hu)
      (by rw [strEq_iff, hclient, show i.clientId = j.clientId from hc]))

theorem inv_answered (h : s.Inv P) (hfresh : s.Fresh P cfg (.token env req))
    (hout : s.outcome P cfg env req = some r)
    (hnew : ∀ t, presentedRefresh P cfg req = some t → t ∉ s.used) :
    (s.answered P cfg req r).Inv P := by
  have hdistinct : ∀ i ∈ s.newIssue P req r.1, ∀ j ∈ s.issued, P.sha256 j.token ≠
    P.sha256 i.token :=
    fun i hi j hj heq => (hfresh r hout i hi j hj).1 ((hfresh r hout i hi j hj).2 heq)
  have heffect := handleOauthToken_effect hout
  obtain ⟨a, srv⟩ := r
  simp only [Inv, answered, newBarred_of_not_used hnew, append_nil]
  cases heffect with
  | refused status message | client args tok hissue huser =>
    simp only [newIssue, newUsed, toList_none, append_nil]
    exact h
  | codeSpent code redirectUri ac status message hpresents hget hok =>
    simp only [newIssue, newUsed, toList_none, append_nil]
    exact Ledger.congr h rfl
  | code code redirectUri jkt ac user tok hpresents hget hok huser hactive hissue =>
    have hissued :
      s.newIssue P req (.codeTokens tok user.id (strstr (lit "openid") (cstr ac.scope)).isSome) =
        some ⟨tok.rawRefreshToken, ac.userId, strlcpy 64 ac.clientId⟩ := by
      simp [newIssue, hpresents.2.1, hget]
    simp only [hissued, newUsed, toList_some, append_nil]
    have hmarked : Ledger P (s.srv.grants.oauthCodeMarkUsed ac.code) s.issued
      (s.used ++ s.barred) :=
      Ledger.congr h rfl
    exact hmarked.create _ (refreshRecord P env user.id ac.clientId tok.rawRefreshToken) rfl
      (Store.userGetById_id huser) rfl ⟨_, rfl⟩ (hdistinct _ hissued)
  | replayed token rt hpresents hget hrevoked =>
    simp only [newIssue, newUsed, toList_none, append_nil]
    exact Ledger.revokeFamily h rt.userId rt.clientId
  | rotated token jkt rt user tok hpresents hget hlive huser hissue =>
    obtain ⟨j, hknown, hj, hju, hjc⟩ := known_of_get h hget
    have hissued : s.newIssue P req (.refreshedTokens tok) =
      some { j with token := tok.rawRefreshToken } := by
      simp [newIssue, hpresents.2, hknown]
    obtain ⟨c, hc⟩ := Ledger.clean h j hj
    have hclient : strlcpy 64 rt.clientId = j.clientId := by
      rw [hjc, hc]
      exact strlcpy_eq_self (not_mem_strlcpy _ _)
        (Nat.lt_of_le_of_lt (length_strlcpy_le ..) (by decide))
    have hledger :=
      (Ledger.revoke h (refreshHash P token)).create { j with token := tok.rawRefreshToken }
      (refreshRecord P env user.id rt.clientId tok.rawRefreshToken) rfl
      ((Store.userGetById_id huser).trans hju)
      hclient ⟨c, hc⟩ (hdistinct _ hissued)
    simp only [hissued, newUsed, presentedRefresh_iff.mpr hpresents, toList_some]
    refine hledger.spend fun x hx => ?_
    simp only [mem_append, mem_singleton] at hx ⊢
    rcases hx with (hx | rfl) | hx
    · exact .inl (.inl hx)
    · exact .inr ((refreshSpent_revoke hget).create _)
    · exact .inl (.inr hx)

theorem inv_step {s' : FamilyRun} {e : TokenEvent} (h : s.Inv P) (hfresh : s.Fresh P cfg e)
    (hstep : s.step P cfg e = some s') : s'.Inv P := by
  cases e with
  | token env req =>
    obtain ⟨r, hout, rfl⟩ := map_eq_some_iff.mp hstep
    by_cases hreplay : ∃ t, presentedRefresh P cfg req = some t ∧ t ∈ s.used
    · obtain ⟨t, hpresented, ht⟩ := hreplay
      exact inv_replay h hpresented ht hout
    · exact inv_answered h hfresh hout fun t hpresented ht => hreplay ⟨t, hpresented, ht⟩
  | other srv =>
    cases hstep
    exact Ledger.congr h rfl

theorem inv_start (srv : Server) : (start srv).Inv P where
  rows := by simp [start]
  keys := by simp [start]
  clean := by simp [start]
  spent := by simp [start]

/-- In every run of token requests, a refresh token succeeds at most once; once a used one
is presented again, no token its pair held then ever succeeds, and the tokens of other
pairs stay as they are. -/
theorem refresh_family_rule (P : Platform) (cfg : ServerConfig) (srv : Server)
    (es : List TokenEvent)
    (s : FamilyRun) (hfresh : Run.Along (step P cfg) (Fresh P cfg) es (start srv))
    (hrun : Run.run (step P cfg) es (start srv) = some s) (env : Moment) (req : Request) :
    s.FamilyRule P cfg env req :=
  familyRule_of_inv
    (Run.invariant_of_run (fun _ _ _ h hf hs => inv_step h hf hs) (inv_start srv) hfresh hrun)

/-! ## §5 A run -/

/-- The refresh token drawn in the `n`-th moment. -/
def drawn (n : Nat) : Bytes := base64urlEncode 128 (sampleMoment n).draws.access.refreshRand.toList

def appCode : AuthCode where
  code := lit "c0de"
  clientId := lit "app"
  userId := 1
  redirectUri := lit "https://app/cb"
  scope := lit "openid"
  nonce := []
  codeChallenge := []
  codeChallengeMethod := []
  expiresAt := 60000
  used := false

/-- One active user and a code for them. -/
def codeServer : Server :=
  { sampleServer [{ id := 1, username := lit "ann", phone := [], status := .active }] with
    grants.codes := [appCode] }

def redeemRequest : Request :=
  jsonRequest [("grant_type", lit "authorization_code"), ("code", lit "c0de"),
    ("redirect_uri", lit "https://app/cb")]

def refreshRequest (n : Nat) : Request :=
  jsonRequest [("grant_type", lit "refresh_token"), ("refresh_token", drawn n)]

/-- The code is redeemed, the refresh token used, and used again. -/
def replayRun : List TokenEvent :=
  [.token (sampleMoment 1) redeemRequest, .token (sampleMoment 2) (refreshRequest 1),
    .token (sampleMoment 3) (refreshRequest 1)]

theorem replay_bars_family : ∃ s,
    Run.run (step samplePlatform sampleConfig) replayRun (start codeServer) = some s ∧
      s.used = [drawn 1] ∧ s.barred = [drawn 1, drawn 2] ∧
      s.FamilyRule samplePlatform sampleConfig (sampleMoment 4) (refreshRequest 2) := by
  refine Run.exists_some_of_any (P := fun s => s.used = [drawn 1] ∧ s.barred = [drawn 1, drawn 2])
    (by decide +kernel) fun s hrun hs => ⟨hs.1, hs.2, ?_⟩
  exact refresh_family_rule _ _ _ _ s (by decide +kernel) hrun _ _

/-- The used token presented again with a DPoP proof that is not valid. -/
def badProofRequest : Request := { refreshRequest 1 with dpopProof := lit "proof" }

/-- The request is refused before the token is looked up, so the family lives on: the token
that replaced the used one still succeeds. -/
theorem bad_proof_spares_family :
    (Run.run (step samplePlatform sampleConfig)
        [.token (sampleMoment 1) redeemRequest, .token (sampleMoment 2) (refreshRequest 1),
          .token (sampleMoment 3) badProofRequest] (start codeServer)).map
      (fun s => (s.used, s.issued.map RefreshIssue.token)) = some ([drawn 1], [drawn 1, drawn 2]) ∧
    reqJsonStrValue badProofRequest (lit "grant_type") = some (lit "refresh_token") ∧
    reqJsonStrValue badProofRequest (lit "refresh_token") = some (drawn 1) ∧
    ((Run.run (step samplePlatform sampleConfig)
        [.token (sampleMoment 1) redeemRequest, .token (sampleMoment 2) (refreshRequest 1),
          .token (sampleMoment 3) badProofRequest] (start codeServer)).bind
      fun s => s.outcome samplePlatform sampleConfig (sampleMoment 4) (refreshRequest 2)).map
        (fun r => r.1.tokens.map Token.rawRefreshToken) = some [drawn 4] := by
  decide +kernel

end FamilyRun

end SsoSystem
