/-
SsoSystem.Token.Manager — key slots, rotation, issuing and verifying of
src/token.c (include/token.h).

HMAC-SHA256 and the RSA calls of OpenSSL are the fields of `Crypto`. What the
issuing call takes from the clock and the random generator is `IssueEnv`.
Allocation failures, metrics, tracing and the log lines are left out, as is
the loading of PEM keys; a slot of an RS256 manager holds key handles.

Token texts run through fixed buffers (256, 2048, 2560 and 8192 bytes); each
cut the source makes there is made here too.
-/
import SsoSystem.JsonWriter
import SsoSystem.Token.Base64Url
import SsoSystem.Token.Scanner

namespace SsoSystem

open CMem Decimal

/-! ## §1 Keys -/

/-- `sso_token_mode_t`. -/
inductive TokenMode where
  | hs256 | rs256 | crydi3
  deriving DecidableEq, Repr

/-- The OpenSSL calls. -/
structure Crypto where
  /-- HMAC-SHA256 of a message under a key. -/
  hmac : Bytes → Bytes → Bytes
  length_hmac : ∀ key msg, (hmac key msg).length = 32
  /-- `EVP_DigestSign*` with a private key; `none` when a call fails. -/
  rsaSign : Nat → Bytes → Option Bytes
  /-- `EVP_DigestVerify*` of a signature on a message with a public key. -/
  rsaVerify : Nat → Bytes → Bytes → SsoError

/-- `key_slot_t`; the union's two members are kept apart. -/
structure KeySlot where
  kid : Bytes
  populated : Bool
  mode : TokenMode
  secret : Bytes
  privKey : Option Nat
  pubKey : Option Nat
  deriving DecidableEq, Repr

/-- A slot after `memset`. -/
def KeySlot.zero : KeySlot where
  kid := []
  populated := false
  mode := .hs256
  secret := List.replicate 32 0
  privKey := none
  pubKey := none

/-- `session_track_t`: the ring of a user's registered sessions; `active_count` is the number
of jtis. -/
structure SessionTrack where
  userId : UInt64
  jtis : List Bytes
  oldestIdx : Nat
  deriving DecidableEq, Repr

/-- `token_manager`, without its locks and the storage pointer. -/
structure TokenManager where
  mode : TokenMode
  slots : Fin 2 → KeySlot
  activeSlot : Fin 2
  rotationCounter : UInt32
  defaultTtlMs : Int64
  nonces : List (UInt64 × UInt64)
  jtis : List Bytes
  sessions : List SessionTrack := []

variable (kidNum : UInt32) (secret : Bytes)

/-- The 32-byte key buffer: a longer secret is cut, a shorter one padded with NULs. -/
def secretBuffer : Bytes :=
  secret.take 32 ++ List.replicate (32 - secret.length) 0

/-- `"sso-key-%u"`. -/
def kidOf : Bytes := lit "sso-key-" ++ decimal kidNum.toNat

/-- A slot filled with an HS256 secret. -/
def hsSlot : KeySlot where
  kid := kidOf kidNum
  populated := true
  mode := .hs256
  secret := secretBuffer secret
  privKey := none
  pubKey := none

/-- `token_manager_init`. -/
def tokenManagerInit (defaultTtlMs : Int64) : Except SsoError TokenManager :=
  if secret = [] then .error .invalidParam
  else .ok
    { mode := .hs256
      slots := fun i => if i = 0 then hsSlot 1 secret else KeySlot.zero
      activeSlot := 0
      rotationCounter := 1
      defaultTtlMs := defaultTtlMs
      nonces := []
      jtis := [] }

namespace TokenManager

variable (m : TokenManager) (i : Fin 2) (secret : Bytes)

/-- Fills a slot under the next kid and counts the counter up. -/
def fillSlot : TokenManager :=
  { m with
    slots := fun j => if j = i then hsSlot (m.rotationCounter + 1) secret else m.slots j
    rotationCounter := m.rotationCounter + 1 }

/-- `token_manager_init_standby`: always slot 1, whichever is active. -/
def initStandby : Except SsoError TokenManager :=
  if secret = [] then .error .invalidParam else .ok (m.fillSlot 1 secret)

/-- `token_manager_rotate_key`: fills the slot that is not active, then flips. -/
def rotateKey : Except SsoError TokenManager :=
  if secret = [] then .error .invalidParam
  else .ok { m.fillSlot (1 - m.activeSlot) secret with activeSlot := 1 - m.activeSlot }

/-- `token_manager_rotate_key_rs256` with the keys `load_rsa_slot` found. Without any the slot
that is not active has been cleared and the counter has moved on. -/
def rotateKeyRs256 (keys : Option (Nat × Nat)) : SsoError × TokenManager :=
  let standby := 1 - m.activeSlot
  let put := fun slot : KeySlot =>
    { m with
      slots := fun j => if j = standby then slot else m.slots j
      rotationCounter := m.rotationCounter + 1 }
  match keys with
  | none => (.init, put { KeySlot.zero with mode := .rs256 })
  | some (priv, pub) =>
    (.ok,
      { put { KeySlot.zero with
          kid := kidOf (m.rotationCounter + 1)
          populated := true
          mode := .rs256
          privKey := some priv
          pubKey := some pub } with activeSlot := standby })

/-- `slot_index_by_kid`. -/
def slotIndexByKid (m : TokenManager) (kid : Bytes) : Option (Fin 2) :=
  [0, 1].find? fun i => (m.slots i).populated && (m.slots i).kid == kid

/-- The slot new tokens are signed with. -/
def active : KeySlot := m.slots m.activeSlot

/-! ## §2 Nonces and revocation -/

/-- `token_get_nonce`. -/
def getNonce (uid : UInt64) : UInt64 :=
  ((m.nonces.find? fun n => n.1 == uid).map Prod.snd).getD 0

/-- `token_set_nonce`: the first pair of the user, or a new one at the end. -/
def setNonce (uid nonce : UInt64) : TokenManager :=
  { m with
    nonces :=
      if m.nonces.any fun n => n.1 == uid then
        m.nonces.replaceF fun n => if n.1 == uid then some (uid, nonce) else none
      else m.nonces ++ [(uid, nonce)] }

/-- `token_bump_nonce`. -/
def bumpNonce (uid : UInt64) : TokenManager :=
  m.setNonce uid (m.getNonce uid + 1)

/-- The in-memory half of `token_revoke`. -/
def revoke (jti : Bytes) : TokenManager :=
  { m with jtis := m.jtis ++ [strlcpy 64 jti] }

/-- The in-memory half of `token_is_revoked`: sorting and binary search find
exactly the members of the list. -/
def isRevoked (jti : Bytes) : Bool := m.jtis.contains (cstr jti)

end TokenManager

/-- One more session in a ring of three (`SSO_MAX_CONCURRENT_SESSIONS`); in a full ring it
takes the place of the oldest, whose jti comes out. -/
def SessionTrack.register (track : SessionTrack) (jti : Bytes) : SessionTrack × Option Bytes :=
  if track.jtis.length < 3 then ({ track with jtis := track.jtis ++ [strlcpy 64 jti] }, none)
  else
    ({ track with
        jtis := track.jtis.set track.oldestIdx (strlcpy 64 jti)
        oldestIdx := (track.oldestIdx + 1) % 3 }, track.jtis[track.oldestIdx]?)

variable (c : Crypto) (m : TokenManager) (a : IssueArgs)

/-- The rings of `token_register_session`, and the jti that it revokes. -/
def TokenManager.registerSession (uid : UInt64) (jti : Bytes) : TokenManager × Option Bytes :=
  match m.sessions.find? fun track => track.userId == uid with
  | some track =>
    ({ m with
        sessions := m.sessions.replaceF fun t =>
          if t.userId == uid then some (track.register jti).1 else none }, (track.register jti).2)
  | none =>
    let track : SessionTrack := { userId := uid, jtis := [], oldestIdx := 0 }
    ({ m with sessions := m.sessions ++ [(track.register jti).1] }, none)

/-! ## §3 Issuing -/

/-- The arguments of `token_issue`; a NULL text is `none`. -/
structure IssueArgs where
  userId : UInt64
  roleIds : List UInt64
  groupIds : List UInt64
  scope : Option Bytes
  ttlMs : Int64
  dpopJkt : Option Bytes

/-- The scope and the thumbprint of a call, as C strings. -/
def IssueArgs.scopeText : Bytes := cstr (a.scope.getD [])

def IssueArgs.jktText : Bytes := cstr (a.dpopJkt.getD [])

/-- The clock and the random bytes `token_issue` draws. -/
structure IssueEnv where
  now : Int64
  jtiRand : Vector UInt8 8
  refreshRand : Vector UInt8 32

/-- `"%llx"` of a timestamp. -/
def hexNumber (t : Int64) : Bytes :=
  (Nat.toDigits 16 t.toUInt64.toNat).map fun c => UInt8.ofNat c.toNat

/-- The time to live: the argument, or the manager's default for 0. -/
def actualTtl (ttlMs : Int64) : Int64 :=
  if ttlMs = 0 then m.defaultTtlMs else ttlMs

/-- The token record before it is signed. -/
def issueClaims (env : IssueEnv) : Token :=
  { Token.zero with
    jti := hexNumber env.now ++ env.jtiRand.toList.flatMap hexByte
    userId := a.userId
    issuedAt := env.now
    expiresAt := env.now + actualTtl m a.ttlMs
    roleIds := a.roleIds
    groupIds := a.groupIds
    nonce := m.getNonce a.userId
    scope := strlcpy 256 (a.scope.getD [])
    jkt := strlcpy 64 (a.dpopJkt.getD []) }

/-- The `alg` of the header. -/
def TokenMode.alg : TokenMode → Bytes
  | .hs256 => lit "HS256"
  | .rs256 => lit "RS256"
  | .crydi3 => lit "CRYDI3"

/-- The header document. -/
def headerDoc : Json :=
  .obj [(lit "alg", .str m.mode.alg), (lit "typ", .str (lit "JWT")), (lit "kid", .str m.active.kid)]

/-- The payload's members, in the order they are added. -/
def payloadMembers (t : Token) : List (Bytes × Json) :=
  [(lit "jti", Json.str t.jti), (lit "sub", Json.uint t.userId),
    (lit "iat", Json.uint t.issuedAt.toUInt64),
    (lit "exp", Json.uint t.expiresAt.toUInt64), (lit "tnc", Json.uint t.nonce),
    (lit "iss", Json.str (lit "sso-server")), (lit "aud", Json.str (lit "sso-api"))] ++
  (if t.scope = [] then [] else [(lit "scope", Json.str t.scope)]) ++
  (if t.oauthNonce = [] then [] else [(lit "nonce", Json.str t.oauthNonce)]) ++
  [(lit "roles", Json.arr (t.roleIds.map Json.uint))] ++
  (if t.groupIds = [] then [] else [(lit "groups", Json.arr (t.groupIds.map Json.uint))]) ++
  (if t.jkt = [] then [] else [(lit "cnf", Json.obj [(lit "jkt", Json.str t.jkt)])])

/-- `"%s.%s"` into a buffer of `size` bytes. -/
def joinDot (size : Nat) (a b : Bytes) : Bytes := strlcpy size (a ++ 46 :: b)

/-- The text that is signed: header and payload, base64url-encoded in 256 and 2048 bytes. -/
def signingInput (headerJson payloadJson : Bytes) : Bytes :=
  joinDot 2560 (base64urlEncode 256 headerJson) (base64urlEncode 2048 payloadJson)

/-- The base64url text of a MAC, in a buffer of `EVP_MAX_MD_SIZE * 2 + 1` bytes. -/
def macText (secret msg : Bytes) : Bytes := base64urlEncode 129 (c.hmac secret msg)

/-- The signature part; the CRYDI3 signature is a mock of 3293 equal bytes. -/
def signatureText (msg : Bytes) : Option Bytes :=
  match m.mode with
  | .hs256 => some (macText c m.active.secret msg)
  | .crydi3 => some (base64urlEncode (3293 * 2 + 2) (List.replicate 3293 0xAA))
  | .rs256 =>
    m.active.privKey.bind fun key => (c.rsaSign key msg).map fun sig =>
      base64urlEncode (sig.length * 2 + 2) sig

/-- `token_issue`. A header or payload that cannot be written is `none` in the
writer; the header never is, since kids and algorithm names are ASCII. -/
def tokenIssue (env : IssueEnv) : Except SsoError Token :=
  let t := issueClaims m a env
  match (headerDoc m).write, (Json.obj (payloadMembers t)).write with
  | some headerJson, some payloadJson =>
    let msg := signingInput headerJson payloadJson
    match signatureText c m msg with
    | some sig =>
      .ok { t with
        tokenStr := joinDot 8192 msg sig
        rawRefreshToken := base64urlEncode 128 env.refreshRand.toList }
    | none => .error .init
  | _, _ => .error .outOfMemory

theorem tokenIssue_claims {c : Crypto} {m : TokenManager} {args : IssueArgs} {env : IssueEnv}
    {tok : Token}
    (h : tokenIssue c m args env = .ok tok) :
    tok.userId = args.userId ∧ tok.scope = strlcpy 256 (args.scope.getD []) ∧
      tok.jkt = strlcpy 64 (args.dpopJkt.getD []) := by
  unfold tokenIssue at h
  dsimp only at h
  split at h
  · split at h
    · cases h
      exact ⟨rfl, rfl, rfl⟩
    · cases h
  · cases h

/-- `token_refresh`. The thumbprint it passes on is `out->jkt`, and `token_issue` clears `out`
before it reads it. -/
def tokenRefresh (old : Token) (ttlMs : Int64) (env : IssueEnv) : Except SsoError Token :=
  tokenIssue c m
    { userId := old.userId
      roleIds := old.roleIds
      groupIds := old.groupIds
      scope := some old.scope
      ttlMs := if ttlMs > 0 then ttlMs else m.defaultTtlMs
      dpopJkt := some Token.zero.jkt } env

/-! ## §4 Verifying -/

/-- The three parts of a token text, cut at its first two dots. -/
def splitToken (t : Bytes) : Option (Bytes × Bytes × Bytes) :=
  match t.dropWhile (· != 46) with
  | [] => none
  | _ :: r =>
    match r.dropWhile (· != 46) with
    | [] => none
    | _ :: s => some (t.takeWhile (· != 46), r.takeWhile (· != 46), s)

/-- The comparison of a signature part with a slot's MAC of the message. -/
def macMatches (slot : KeySlot) (msg sig : Bytes) : Bool :=
  if isHexStr sig then sig == toHex 129 (c.hmac slot.secret msg)
  else sig == macText c slot.secret msg

/-- The slots whose secret may have signed a token with this header kid; an empty
kid is a token from before kids, which either slot may have signed. -/
def candidates (kid : Bytes) : Option (List (Fin 2)) :=
  if kid = [] then some [m.activeSlot, 1 - m.activeSlot]
  else (m.slotIndexByKid kid).map fun i => [i]

/-- The bytes an all-hex signature spells. -/
def hexPairs : Bytes → Bytes
  | x :: y :: rest => UInt8.ofNat (hexDigitValue x * 16 + hexDigitValue y) :: hexPairs rest
  | _ => []
where
  hexDigitValue (x : UInt8) : Nat :=
    if x.toNat ≤ 57 then x.toNat - 48
    else if x.toNat ≤ 70 then x.toNat - 55
    else x.toNat - 87

/-- The signature check of `token_verify_internal`. -/
def checkSignature (kid msg sig : Bytes) : SsoError :=
  match m.mode with
  | .hs256 =>
    match candidates m kid with
    | none => .tokenInvalid
    | some slots =>
      if slots.any fun i => (m.slots i).populated && macMatches c (m.slots i) msg sig then .ok
      else .tokenInvalid
  | .crydi3 => if sig.length < 100 then .tokenInvalid else .ok
  | .rs256 =>
    let slot := if kid = [] then some m.activeSlot else m.slotIndexByKid kid
    match slot.map m.slots with
    | none => .tokenInvalid
    | some slot =>
      match slot.populated, slot.pubKey with
      | true, some key =>
        c.rsaVerify key msg
          (if isHexStr sig then hexPairs sig
           else base64urlDecode (sig.length / 4 * 3 + 4) sig)
      | _, _ => .tokenInvalid

/-- The kid the header part routes by. -/
def routingKid (header : Bytes) : Bytes := scanHeaderKid (base64urlDecode 511 header) 32

/-- The payload part, decoded. -/
def payloadText (payload : Bytes) : Bytes := base64urlDecode 4095 payload

/-- `token_verify`; `none` when the payload scan leaves the payload. -/
def tokenVerify (now : Int64) (tokenStr : Bytes) : Option (Except SsoError Token) :=
  match splitToken (cstr tokenStr) with
  | none => some (.error .tokenInvalid)
  | some (header, payload, sig) =>
    if header.length ≥ 128 ∨ payload.length ≥ 2048 then some (.error .tokenInvalid)
    else
      match checkSignature c m (routingKid header) (joinDot 2560 header payload) sig with
      | .ok =>
        if payloadText payload = [] then some (.error .tokenInvalid)
        else
          (scanJwtPayload (payloadText payload)
            { Token.zero with tokenStr := strlcpy 8192 tokenStr }).map fun r =>
            if r.1 ≠ .ok then .error r.1
            else if now > r.2.expiresAt then .error .tokenExpired
            else .ok r.2
      | err => some (.error err)

end SsoSystem
