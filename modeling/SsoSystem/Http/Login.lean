/-
SsoSystem.Http.Login — the authentication endpoints of src/handlers_auth.c and
src/handlers_webauthn.c, with the parts of src/user.c and src/mfa.c they use.

Each handler is a program over `Call`. Log lines, metrics, response buffers
and the risk records are left out; a token that `token_issue` left
uninitialised where its result is not looked at ends the program without an
answer. Read-only pages are in `Http.Routes`.
-/
import SsoSystem.Http.OAuth

namespace SsoSystem

open CMem Decimal Handling

/-! ## §1 Passwords and one-time codes -/

/-- `validate_password` under the default policy; a NULL password is `none`. -/
def validatePassword (password : Option Bytes) : Option String :=
  match password with
  | none => some "Password required"
  | some p =>
    let isUpper := fun c : UInt8 => 65 ≤ c.toNat && c.toNat ≤ 90
    let isLower := fun c : UInt8 => 97 ≤ c.toNat && c.toNat ≤ 122
    let isNumber := fun c : UInt8 => 48 ≤ c.toNat && c.toNat ≤ 57
    let isSpecial := fun c : UInt8 =>
      !isUpper c && !isLower c && !isNumber c && 32 < c.toNat && c.toNat < 127
    if p.length < 8 then some "Password must be at least 8 characters"
    else if p.length > 128 then some "Password must not exceed 128 characters"
    else if !p.any isUpper then some "Password must contain an uppercase letter"
    else if !p.any isLower then some "Password must contain a lowercase letter"
    else if !p.any isNumber then some "Password must contain a digit"
    else if !p.any isSpecial then some "Password must contain a special character"
    else none

variable (P : Platform) (cfg : ServerConfig) (env : Moment) (req : Request)

/-- `user_authenticate` on what the lookup by name found. -/
def userAuthenticate (now : Int64) (stored : Option User) (password : Bytes) : Option User :=
  stored.filter fun user =>
    user.status == .active && P.pwhashVerify user.passwordHash password &&
      !(cfg.passwordExpiryDays > 0 && user.passwordSetAt > 0 &&
        user.passwordSetAt + cfg.passwordExpiryDays * 86400000 < now)

/-- The value of a base32 character; others are skipped. -/
def base32Value (c : UInt8) : Option Nat :=
  if 65 ≤ c.toNat ∧ c.toNat ≤ 90 then some (c.toNat - 65)
  else if 97 ≤ c.toNat ∧ c.toNat ≤ 122 then some (c.toNat - 97)
  else if 50 ≤ c.toNat ∧ c.toNat ≤ 55 then some (c.toNat - 50 + 26)
  else none

/-- The loop of `base32_decode`: `buffer` holds the last `bits` bits. A key that does not
fit has length 0. -/
def base32DecodeFrom (maxLen buffer bits : Nat) (out : Bytes) : Bytes → Bytes
  | [] => out
  | c :: rest =>
    match base32Value c with
    | none => base32DecodeFrom maxLen buffer bits out rest
    | some v =>
      let buffer := buffer * 32 + v
      let bits := bits + 5
      if bits < 8 then base32DecodeFrom maxLen (buffer % 2 ^ bits) bits out rest
      else if out.length ≥ maxLen then []
      else
        base32DecodeFrom maxLen (buffer % 2 ^ (bits - 8)) (bits - 8)
          (out ++ [UInt8.ofNat (buffer / 2 ^ (bits - 8) % 256)]) rest

/-- `base32_decode`. -/
def base32Decode (maxLen : Nat) (encoded : Bytes) : Bytes :=
    base32DecodeFrom maxLen 0 0 [] (cstr encoded)

/-- The eight bytes of a time step, highest first. -/
def stepBytes (step : UInt64) : Bytes :=
  (List.range 8).map fun i => UInt8.ofNat (step.toNat / 256 ^ (7 - i) % 256)

/-- `generate_totp`: the dynamic truncation of the HMAC. -/
def generateTotp (key : Bytes) (step : UInt64) : Nat :=
  match P.hmacSha1 key (stepBytes step) with
  | none => 0
  | some hash =>
    let byte := fun i => (hash.toList.getD i 0).toNat
    let offset := byte 19 % 16
    (byte offset % 128 * 16777216 + byte (offset + 1) * 65536 + byte (offset + 2) * 256 +
      byte (offset + 3)) %
      1000000

/-- `"%06u"` of a number below a million. -/
def sixDigits (n : Nat) : Bytes := List.replicate (6 - (decimal n).length) 48 ++ decimal n

/-- `mfa_verify_totp`: the code of this half minute or of one next to it. -/
def mfaVerifyTotp (unixTime : UInt64) (secret code : Bytes) : Bool :=
  let key := base32Decode 64 secret
  code.length == 6 && !key.isEmpty &&
    [unixTime / 30 - 1, unixTime / 30, unixTime / 30 + 1].any fun step =>
      sixDigits (generateTotp P key step) == code

/-! ## §2 Issuing -/

/-- `token_issue`, with what follows on success and on failure. -/
def issuing (args : IssueArgs) (draw : IssueEnv) (ok : Token → Handling) (bad : Handling) :
    Handling :=
  .call .authContext fun ctx =>
    match tokenIssue P.crypto ctx.tokens args draw with
    | .ok tok => ok tok
    | .error _ => bad

/-- The arguments of a login's token. -/
def loginArgs (user : User) (roles groups : List Nat) (scope : Option Bytes) (ttlMs : Int64)
    (dpopJkt : Option Bytes) : IssueArgs where
  userId := UInt64.ofNat user.id
  roleIds := roles.map UInt64.ofNat
  groupIds := groups.map UInt64.ofNat
  scope := scope
  ttlMs := ttlMs
  dpopJkt := dpopJkt

/-- `user_get_roles` and `user_get_groups`. -/
def withMemberships (uid : Nat) (k : List Nat → List Nat → Handling) : Handling :=
  .call (.getUserRoles uid) fun roles => .call (.getUserGroups uid) fun groups => k roles groups

/-- An access and a refresh token for a user, and what follows. -/
def issuePair (user : User) (roles groups : List Nat) (jkt : Option Bytes)
    (badAccess badRefresh : String) (k : Token → Token → Handling) : Handling :=
  issuing P (loginArgs user roles groups none 900000 jkt) env.draws.access
    (fun access =>
      issuing P (loginArgs user roles groups none 604800000 jkt) env.draws.refresh (k access)
        (fail 500 badRefresh))
    (fail 500 badAccess)

/-! ## §3 Password and second factor -/

/-- What `handle_login` does for a user whose password was right. -/
def passwordLogin (user : User) : Handling :=
  if env.riskScore ≥ 80 then fail 401 "High risk login blocked"
  else if env.riskScore ≥ 40 ∧ !user.mfaEnabled then
    fail 401 "Medium risk login requires MFA, but MFA is not configured. Access blocked."
  else
    match requestJkt P req with
    | none => fail 401 "Invalid DPoP Proof"
    | some jkt =>
      withMemberships user.id fun roles groups =>
        if user.mfaEnabled ∨ env.riskScore ≥ 40 then
          issuing P (loginArgs user [] [] (some (lit "mfa")) 300000 none) env.draws.access
            (fun tok => .ret (.mfaRequired tok)) .stuck
        else
          issuePair P env user roles groups (some jkt) "Failed to issue access token"
            "Failed to issue refresh token" fun access refresh =>
              .call (.tokenRegisterSession (UInt64.ofNat user.id) access.jti) fun _ =>
                .ret (.loggedIn user access refresh)

/-- `handle_login`. -/
def handleLogin : Handling :=
  if !req.hasBody then fail 400 "Request body required"
  else if !env.rateOk then fail 429 "Too many login attempts. Please wait."
  else
    match reqJsonStrValue req (lit "username"), reqJsonStrValue req (lit "password") with
    | some username, some password =>
      .call (.userGetByName username) fun stored =>
        match userAuthenticate P cfg env.now stored password with
        | none => fail 401 "Invalid credentials"
        | some user => passwordLogin P env req user
    | _, _ => fail 400 "username and password required"

variable (rand : Vector UInt8 32) (auth : AuthUser)

/-- `handle_mfa_enable`. -/
def handleMfaEnable : Handling :=
  if !req.hasBody then fail 400 "Request body required"
  else
    match reqJsonStrValue req (lit "secret"), reqJsonStrValue req (lit "code") with
    | some secret, some code =>
      if !mfaVerifyTotp P env.unixTime secret code then fail 400 "Invalid TOTP code"
      else
        .call (.manage
          (.userUpdate { auth.1 with mfaEnabled := true, mfaSecret := strlcpy 64 secret })) fun
          | .ok _ => ok "\x7b\"enabled\":true\x7d"
          | .error _ => fail 500 "Failed to update user"
    | _, _ => fail 400 "secret and code required"

/-- `handle_mfa_verify`: any token of the user will do. -/
def handleMfaVerify : Handling :=
  if !req.hasBody then fail 400 "Request body required"
  else
    match reqJsonStrValue req (lit "mfa_token"), reqJsonStrValue req (lit "code") with
    | some mfaToken, some code =>
      verifying P env mfaToken
        (fun tok =>
          .call (.userGetById tok.userId.toNat) fun
            | none => fail 401 "User not found"
            | some user =>
              if !mfaVerifyTotp P env.unixTime user.mfaSecret code then fail 401 "Invalid TOTP code"
              else
                withMemberships user.id fun roles groups =>
                  issuePair P env user roles groups none "Failed to issue final tokens"
                    "Failed to issue final tokens" fun access refresh =>
                      .ret (.loggedIn user access refresh))
        (fail 401 "Invalid or expired MFA token")
    | _, _ => fail 400 "mfa_token and code required"

/-! ## §4 SMS -/

/-- `handle_send_sms`. -/
def handleSendSms : Handling :=
  if !req.hasBody then fail 400 "Request body required"
  else
    match reqJsonStrValue req (lit "phone") with
    | none => fail 400 "phone required"
    | some phone =>
      if !env.rateOk then fail 429 "Too many SMS requests. Please wait 1 minute."
      else
        .call (.saveSmsCode phone (sixDigits (env.smsRand % 1000000)) (env.now + 300000)) fun _ =>
          if env.smsSent then ok "\x7b\"status\":\"sent\"\x7d" else fail 500 "SMS gateway error"

/-- The user of `user_create_by_phone`. -/
def phoneUser (phone : Bytes) : User where
  id := 0
  username := strlcpy 64 phone
  phone := strlcpy 32 phone
  status := .active
  passwordSetAt := env.now

/-- `user_get_by_phone`, or else `user_create_by_phone`. -/
def withPhoneUser (phone : Bytes) (k : User → Handling) (bad : Handling) : Handling :=
  .call (.userGetByPhone phone) fun
    | some user => k user
    | none =>
      .call (.manage (.userCreate (phoneUser env phone))) fun
        | .ok id => k { phoneUser env phone with id }
        | .error _ => bad

/-- The rest of `handle_login_by_sms`, after the code was deleted. -/
def smsLogin (phone : Bytes) : Handling :=
  withPhoneUser env phone
    (fun user =>
      if user.status ≠ .active then fail 403 "Account disabled or error"
      else
        withMemberships user.id fun roles groups =>
          issuing P (loginArgs user roles groups none 3600000 none) env.draws.access
            (fun tok => .ret (.smsLoggedIn user tok)) (fail 500 "Failed to issue token"))
    (fail 403 "Account disabled or error")

/-- `handle_login_by_sms`. Without a phone or a code no branch of the source answers: the
two `if`s before the error belong together. -/
def handleLoginBySms : Handling :=
  if !req.hasBody then fail 400 "Request body required"
  else if !env.rateOk then fail 429 "Too many SMS login attempts. Please wait."
  else
    match reqJsonStrValue req (lit "phone"), reqJsonStrValue req (lit "code") with
    | some phone, some code =>
      if !env.phoneRateOk then fail 429 "Too many attempts for this phone number. Please wait."
      else
        .call (.getSmsCode env.now phone) fun
          | .error _ => fail 401 "Invalid or expired verification code"
          | .ok expected =>
            if !strEq code expected then fail 401 "Invalid or expired verification code"
            else .call (.deleteSmsCode phone) fun _ => smsLogin P env phone
    | _, _ => .ret .untouched

/-! ## §5 Accounts -/

/-- `handle_register`: a new user gets the role "user", which is created if need be. -/
def handleRegister : Handling :=
  if !req.hasBody then fail 400 "Request body required"
  else
    match reqJsonStrValue req (lit "username"), reqJsonStrValue req (lit "password") with
    | some username, some password =>
      match validatePassword (some password) with
      | some message => fail 400 message
      | none =>
        let user : User :=
          { id := 0
            username := strlcpy 64 username
            phone := []
            status := .active
            passwordHash := env.pwhash
            passwordSetAt := env.now
            email := strlcpy 128 ((reqJsonStrValue req (lit "email")).getD [])
            displayName := strlcpy 128 ((reqJsonStrValue req (lit "display_name")).getD username) }
        .call (.manage (.userCreate user)) fun
          | .error .alreadyExists => fail 409 "Username already exists"
          | .error _ => fail 500 "Failed to create user"
          | .ok uid =>
            .call (.roleGetByName (lit "user")) fun
              | some role =>
                .call (.manage (.roleAssignToUser role.id uid)) fun _ =>
                  .ret (.created uid user.username)
              | none =>
                .call (.manage (.roleCreate (lit "user") 0)) fun
                  | .ok rid =>
                    .call (.manage (.roleAssignToUser rid uid)) fun _ =>
                      .ret (.created uid user.username)
                  | .error _ => .ret (.created uid user.username)
    | _, _ => fail 400 "username and password required"

/-- `handle_logout`. -/
def handleLogout : Handling :=
  .call (.tokenRevoke auth.2.jti auth.2.expiresAt) fun _ => ok "\x7b\"logged_out\":true\x7d"

/-- `handle_logout_all`. -/
def handleLogoutAll : Handling :=
  .call (.tokenBumpNonce (UInt64.ofNat auth.1.id)) fun _ => ok "\x7b\"logged_out_all\":true\x7d"

/-- `handle_change_password` with `user_set_password`. A missing password is not answered. -/
def handleChangePassword : Handling :=
  if !req.hasBody then fail 400 "Request body required"
  else
    match reqJsonStrValue req (lit "password") with
    | none => .ret .untouched
    | some password =>
      match validatePassword (some password) with
      | some message => fail 400 message
      | none =>
        .call (.userGetById auth.1.id) fun
          | none => fail 500 "Failed to update password"
          | some user =>
            .call (.manage
              (.userUpdate { user with passwordHash := env.pwhash, passwordSetAt := env.now })) fun
              | .ok _ => ok "\x7b\"updated\":true\x7d"
              | .error _ => fail 500 "Failed to update password"

/-! ## §6 WebAuthn -/

/-- `yyjson_read` of the body; a missing body cannot be read. -/
def bodyReadable : Bool := req.hasBody && req.json.isSome

/-- `sign_challenge`. -/
def signChallenge (challenge : Bytes) : Bytes :=
  (P.crypto.hmac cfg.tokenSecret challenge).flatMap hexByte

/-- `webauthn_generate_challenge`. -/
def webauthnGenerateChallenge : Bytes := base64urlEncode 64 rand.toList

/-- `handle_webauthn_register_challenge`. -/
def handleWebauthnRegisterChallenge : Handling :=
  let challenge := webauthnGenerateChallenge rand
  .ret (.registerChallenge challenge (signChallenge P cfg challenge) auth.1)

/-- A text in a user's attributes. -/
def userAttribute (V : Vendor) (user : User) (key : Bytes) : Option Bytes :=
  Json.getStr (Json.objGet (V.yyjsonRead (cstr user.attributes)) key)

/-- `handle_webauthn_login_challenge`. -/
def handleWebauthnLoginChallenge (P : Platform) (cfg : ServerConfig) (rand : Vector UInt8 32)
    (req : Request) : Handling :=
  if !bodyReadable req then fail 400 "Invalid JSON"
  else
    match reqJsonStrValue req (lit "username") with
    | none => fail 400 "Missing username"
    | some username =>
      .call (.userGetByName username) fun
        | none => fail 401 "User not found or inactive"
        | some user =>
          if user.status ≠ .active then fail 401 "User not found or inactive"
          else
            match userAttribute P.vendor user (lit "webauthn_credential_id") with
            | none => fail 400 "WebAuthn is not configured for this user"
            | some credId =>
              let challenge := webauthnGenerateChallenge rand
              .ret (.loginChallenge challenge (signChallenge P cfg challenge) credId)

def expectedOrigin : Bytes := strlcpy 512 (lit "http://" ++ cstr req.host)

/-- The attributes with a new credential. Attributes that cannot be read are dropped, and
attributes that are no object stay as they are. -/
def credentialAttributes (V : Vendor) (attributes credId pubKey : Bytes) : Bytes :=
  let added := [(lit "webauthn_credential_id", Json.str credId),
    (lit "webauthn_public_key", Json.str pubKey)]
  let doc : Option Json :=
    if cstr attributes = [] then some (.obj added)
    else
      (V.yyjsonRead (cstr attributes)).map fun
        | .obj members => .obj (members ++ added)
        | other => other
  strlcpy 2048 ((doc.bind Json.write).getD [])

/-- `handle_webauthn_register`. -/
def handleWebauthnRegister : Handling :=
  if !bodyReadable req then fail 400 "Invalid JSON"
  else
    match reqJsonStrValue req (lit "challenge"), reqJsonStrValue req (lit "challenge_sig"),
      reqJsonStrValue req (lit "attestation_object"),
        reqJsonStrValue req (lit "client_data_json") with
    | some challenge, some sig, some attestation, some clientData =>
      if !strEq sig (signChallenge P cfg challenge) then fail 400 "Invalid challenge signature"
      else
        match P.webauthnRegisterVerify attestation clientData challenge (expectedOrigin req) with
        | none => fail 400 "WebAuthn registration verification failed"
        | some (credId, pubKey) =>
          .call (.userGetById auth.1.id) fun
            | none => .ret .page
            | some user =>
              .call (.manage (.userUpdate
                { user with
                  attributes := credentialAttributes P.vendor user.attributes credId pubKey }))
                fun _ => .ret .page
    | _, _, _, _ => fail 400 "Missing parameters"

/-- The public key in a user's attributes. -/
def webauthnPublicKey (V : Vendor) (user : User) : Option Bytes :=
  userAttribute V user (lit "webauthn_public_key")

/-- What `handle_webauthn_login` does for a user whose assertion was right. -/
def webauthnTokens (user : User) : Handling :=
  withMemberships user.id fun roles groups =>
    let proof := if cstr req.dpopProof = [] then none else some req.dpopProof
    issuing P (loginArgs user roles groups (some (lit "*")) 0 proof) env.draws.access
      (fun access =>
        issuing P (loginArgs user roles groups (some (lit "refresh")) 604800000 none)
          env.draws.refresh
          (fun refresh => .ret (.webauthnLoggedIn access refresh proof.isSome)) .stuck)
      .stuck

/-- `handle_webauthn_login`. -/
def handleWebauthnLogin : Handling :=
  if !bodyReadable req then fail 400 "Invalid JSON"
  else
    match reqJsonStrValue req (lit "username"), reqJsonStrValue req (lit "challenge"),
      reqJsonStrValue req (lit "challenge_sig"), reqJsonStrValue req (lit "authenticator_data"),
      reqJsonStrValue req (lit "client_data_json"), reqJsonStrValue req (lit "signature") with
    | some username, some challenge, some sig, some authData, some clientData, some signature =>
      if !strEq sig (signChallenge P cfg challenge) then fail 400 "Invalid challenge signature"
      else
        .call (.userGetByName username) fun
          | none => fail 401 "User not found or inactive"
          | some user =>
            if user.status ≠ .active then fail 401 "User not found or inactive"
            else if env.riskScore ≥ 80 then fail 401 "High risk login blocked"
            else
              match webauthnPublicKey P.vendor user with
              | none => fail 400 "WebAuthn is not configured for this user"
              | some pubKey =>
                if P.webauthnLoginVerify authData clientData signature challenge
                  (expectedOrigin req) pubKey then
                  webauthnTokens P env req user
                else fail 401 "WebAuthn authentication failed"
    | _, _, _, _, _, _ => fail 400 "Missing parameters"

end SsoSystem
