/-
SsoSystem.Tenancy.TenantKeys — where the signing keys of the contexts of one
process come from (`load_token_secret` and `sso_init` in src/sso.c), and runs
of setting up tenants, issuing and rotating.

`sso_init` works on a copy of the configuration and wipes the secrets from it
once the manager has them; a tenant is set up from the copy of the server's
own context (`get_tenant_context`), so it never sees the configured secrets
and takes its key from the environment variable or from /dev/urandom.
Loading of PEM keys is left out, so the server's own context signs with HS256
here. Tokens carry no tenant.
-/
import SsoSystem.Http.Acceptance

namespace SsoSystem

open CMem

/-! ## §1 Keys of a new context -/

/-- The key settings of `sso_config_t`. -/
structure KeyConfig where
  tokenSecret : Bytes
  tokenSecret2 : Bytes
  tokenTtlMs : Int64

/-- What one `sso_init` finds: the 32 bytes of /dev/urandom unless they cannot be read, and
for that case the clock and what the key buffer holds. -/
structure KeyDraw where
  urandom : Option (Vector UInt8 32)
  now : Int64
  buffer : Vector UInt8 32

/-- The eight bytes of a timestamp in memory. -/
def timestampBytes (t : Int64) : Bytes :=
  (List.range 8).map fun i => UInt8.ofNat (t.toUInt64.toNat / 256 ^ i)

variable (cfg : KeyConfig) (envSecret : Option Bytes) (draw : KeyDraw)

/-- `load_token_secret`: the environment variable unless it is unset or empty, else random
bytes, else the clock over the start of the buffer. -/
def loadTokenSecret : Bytes :=
  if cstr (envSecret.getD []) ≠ [] then secretBuffer (cstr (envSecret.getD []))
  else
    match draw.urandom with
    | some r => r.toList
    | none => timestampBytes draw.now ++ draw.buffer.toList.drop 8

/-- The key the manager is set up with. -/
def initialSecret : Bytes :=
  if cstr cfg.tokenSecret ≠ [] then secretBuffer (cstr cfg.tokenSecret)
  else loadTokenSecret envSecret draw

/-- The configuration of a context once its manager has the keys. -/
def KeyConfig.wiped : KeyConfig := { cfg with tokenSecret := [], tokenSecret2 := [] }

/-- The token manager `sso_init` sets up; a second secret goes to the standby slot. -/
def ssoInitTokens : Except SsoError TokenManager :=
  match tokenManagerInit (initialSecret cfg envSecret draw)
      (if cfg.tokenTtlMs > 0 then cfg.tokenTtlMs else 3600000) with
  | .error err => .error err
  | .ok m =>
    -- a standby key that is refused is only logged
    if cstr cfg.tokenSecret2 ≠ [] then
      .ok ((m.initStandby (secretBuffer (cstr cfg.tokenSecret2))).toOption.getD m)
    else .ok m

/-! ## §2 Runs -/

/-- An issued token with the context that issued it. -/
structure IssuedBy where
  tenant : Nat
  tok : Token

/-- The managers of the contexts (the server's own is number 0), the tokens they have
issued, and every key a context has had. -/
structure TenantKeys where
  config : KeyConfig
  managers : List TokenManager
  issued : List IssuedBy
  keys : List (Nat × Bytes)

/-- A call on one of the contexts, or the cold start of another. -/
inductive TenantKeyEvent where
  | provision (draw : KeyDraw)
  | issue (tenant : Nat) (args : IssueArgs) (env : IssueEnv)
  | rotate (tenant : Nat) (secret : Bytes)
  | setNonce (tenant : Nat) (uid nonce : UInt64)
  | revoke (tenant : Nat) (jti : Bytes)

namespace TenantKeys

/-- The server after start-up. -/
def start (cfg : KeyConfig) (envSecret : Option Bytes) (draw : KeyDraw) :
    Except SsoError TenantKeys :=
  (ssoInitTokens cfg envSecret draw).map fun m =>
    { config := cfg.wiped
      managers := [m]
      issued := []
      keys := [(0, initialSecret cfg envSecret draw), (0, secretBuffer (cstr cfg.tokenSecret2))] }

variable (c : Crypto) (envSecret : Option Bytes) (s : TenantKeys)

/-- The manager of one context replaced. -/
def setManager (i : Nat) (m : TokenManager) : TenantKeys :=
  { s with managers := s.managers.set i m }

/-- One call; a call that fails, or on a context that is not there, changes nothing. -/
def step : TenantKeyEvent → Option TenantKeys
  | .provision draw =>
    match ssoInitTokens s.config envSecret draw with
    | .ok m =>
      some
        { s with
          managers := s.managers ++ [m]
          keys := (s.managers.length, initialSecret s.config envSecret draw) :: s.keys }
    | .error _ => some s
  | .issue i args env =>
    match s.managers[i]? with
    | some m =>
      match tokenIssue c m args env with
      | .ok tok => some { s with issued := ⟨i, tok⟩ :: s.issued }
      | .error _ => some s
    | none => some s
  | .rotate i secret =>
    match s.managers[i]? with
    | some m =>
      match m.rotateKey secret with
      | .ok m => some { s.setManager i m with keys := (i, secretBuffer secret) :: s.keys }
      | .error _ => some s
    | none => some s
  | .setNonce i uid nonce =>
    match s.managers[i]? with
    | some m => some (s.setManager i (m.setNonce uid nonce))
    | none => some s
  | .revoke i jti =>
    match s.managers[i]? with
    | some m => some (s.setManager i (m.revoke jti))
    | none => some s

/-- The call brings no key into the process that another context has had: a tenant is set
up without the environment variable and with random bytes that are new, and a rotation
does not install a key of another context. -/
def FreshKeys : TenantKeyEvent → Prop
  | .provision draw =>
    cstr (envSecret.getD []) = [] ∧ ∃ r, draw.urandom = some r ∧ ∀ k ∈ s.keys, k.2 ≠ r.toList
  | .rotate i secret => ∀ k ∈ s.keys, k.1 ≠ i → k.2 ≠ secretBuffer secret
  | _ => True

/-- No token is accepted by a context other than the one that issued it, neither by
`token_verify` nor by `authenticate_request`, whatever store and clock this context has. -/
def Confined (c : Crypto) (dpop : DpopVerifier) (s : TenantKeys) : Prop :=
  ∀ e ∈ s.issued, ∀ b m, s.managers[b]? = some m → b ≠ e.tenant → ∀ now,
    (∃ err, tokenVerify c m now e.tok.tokenStr = some (.error err)) ∧
    ∀ (ctx : AuthContext) (req : Request), ctx.tokens = m → req.authToken = e.tok.tokenStr →
      ∃ err, authenticateRequest c dpop ctx now req = some (.error err)

end TenantKeys

end SsoSystem
