/-
SsoSystem.Storage.Grants — the in-memory storage backend
(src/storage_memory.c), the part that holds authorization codes, OAuth
clients, refresh tokens and SMS codes.

As in `Storage.Memory`, the arrays are lists in insertion order and every
lookup takes the first match. A saved SMS code carries the number of its
saving, which no lookup hands out: a text may be sent to a phone twice, and
only the number tells the two codes apart. Descriptions of clients and their
times are left out.
-/
import SsoSystem.Types

namespace SsoSystem

open CMem

/-! ## §1 Records -/

/-- `oauth_auth_code_t`. -/
structure AuthCode where
  code : Bytes
  clientId : Bytes
  userId : Nat
  redirectUri : Bytes
  scope : Bytes
  nonce : Bytes
  codeChallenge : Bytes
  codeChallengeMethod : Bytes
  expiresAt : Int64
  used : Bool
  deriving DecidableEq, Repr

/-- `oauth_client_t`. -/
structure OauthClient where
  id : Nat
  clientId : Bytes
  clientSecretHash : Bytes
  redirectUris : Bytes
  allowedGrantTypes : Bytes
  tokenTtlMs : Int64
  status : Int
  deriving DecidableEq, Repr

/-- `refresh_token_t`. -/
structure RefreshToken where
  tokenHash : Bytes
  userId : Nat
  clientId : Bytes
  expiresAt : Int64
  issuedAt : Int64
  revoked : Bool
  deriving DecidableEq, Repr

/-- `sms_t`, with the number of the saving. -/
structure SmsCode where
  phone : Bytes
  code : Bytes
  expiresAt : Int64
  serial : Nat
  deriving DecidableEq, Repr

/-- The tables, the client counter, and how many SMS codes have been saved. -/
structure Grants where
  codes : List AuthCode
  clients : List OauthClient
  refreshTokens : List RefreshToken
  smsCodes : List SmsCode
  nextOcid : Nat
  smsSaved : Nat
  deriving DecidableEq, Repr

/-- `mem_open`. -/
def Grants.open : Grants where
  codes := []
  clients := []
  refreshTokens := []
  smsCodes := []
  nextOcid := 1
  smsSaved := 0

/-- A change to the first element that satisfies `p`. -/
def updateFirst {α : Type} (p : α → Bool) (f : α → α) : List α → List α
  | [] => []
  | x :: xs => if p x then f x :: xs else x :: updateFirst p f xs

namespace Grants

variable (g : Grants)

/-! ## §2 Authorization codes -/

def oauthCodeCreate (ac : AuthCode) : Grants := { g with codes := g.codes ++ [ac] }

def oauthCodeGet (code : Bytes) : Option AuthCode := g.codes.find? fun ac => strEq ac.code code

def oauthCodeMarkUsed (code : Bytes) : Grants :=
  { g with
    codes :=
      updateFirst (fun ac => strEq ac.code code) (fun ac => { ac with used := true }) g.codes }

/-- `mem_oauth_code_cleanup`. -/
def oauthCodeCleanup (now : Int64) : Grants :=
  { g with codes := g.codes.filter fun ac => !ac.used && decide (ac.expiresAt > now) }

/-! ## §3 Clients -/

def oauthClientGet (clientId : Bytes) : Option OauthClient :=
  g.clients.find? fun c => strEq c.clientId clientId

def oauthClientCreate (c : OauthClient) : Except SsoError Grants :=
  if (g.oauthClientGet c.clientId).isSome then .error .alreadyExists
  else .ok
    { g with clients := g.clients ++ [{ c with id := g.nextOcid }], nextOcid := g.nextOcid + 1 }

def oauthClientUpdate (c : OauthClient) : Except SsoError Grants :=
  if g.clients.any fun d => d.id == c.id then
    .ok { g with clients := updateFirst (fun d => d.id == c.id) (fun _ => c) g.clients }
  else .error .notFound

def oauthClientDelete (clientId : Bytes) : Except SsoError Grants :=
  if (g.oauthClientGet clientId).isSome then
    .ok { g with clients := g.clients.eraseP fun c => strEq c.clientId clientId }
  else .error .notFound

/-! ## §4 Refresh tokens -/

def refreshTokenCreate (rt : RefreshToken) : Grants :=
  { g with refreshTokens := g.refreshTokens ++ [rt] }

def refreshTokenGet (hash : Bytes) : Option RefreshToken :=
  g.refreshTokens.find? fun rt => strEq rt.tokenHash hash

def refreshTokenRevoke (hash : Bytes) : Grants :=
  { g with
    refreshTokens :=
      updateFirst (fun rt => strEq rt.tokenHash hash) (fun rt => { rt with revoked := true })
        g.refreshTokens }

def refreshTokenRevokeFamily (userId : Nat) (clientId : Bytes) : Grants :=
  { g with
    refreshTokens := g.refreshTokens.map fun rt =>
      if rt.userId == userId && strEq rt.clientId clientId then { rt with revoked := true }
      else rt }

/-! ## §5 SMS codes -/

/-- `mem_save_sms_code`: a phone that has a code gets the new one in its place. The copies
leave out one byte more than the fields would need. -/
def saveSmsCode (phone code : Bytes) (expiresAt : Int64) : Grants :=
  { g with
    smsCodes :=
      if g.smsCodes.any fun r => strEq r.phone phone then
        updateFirst (fun r => strEq r.phone phone)
          (fun r => { r with
            code := strlcpy 15 code, expiresAt := expiresAt, serial := g.smsSaved }) g.smsCodes
      else
        g.smsCodes ++
          [{ phone := strlcpy 31 phone
             code := strlcpy 15 code
             expiresAt := expiresAt
             serial := g.smsSaved }]
    smsSaved := g.smsSaved + 1 }

/-- The row of a phone. -/
def smsRow (phone : Bytes) : Option SmsCode := g.smsCodes.find? fun r => strEq r.phone phone

/-- `mem_get_sms_code`. -/
def getSmsCode (now : Int64) (phone : Bytes) : Except SsoError Bytes :=
  match g.smsRow phone with
  | none => .error .notFound
  | some r => if now > r.expiresAt then .error .tokenExpired else .ok r.code

def deleteSmsCode (phone : Bytes) : Grants :=
  { g with smsCodes := g.smsCodes.eraseP fun r => strEq r.phone phone }

end Grants

end SsoSystem
