/-
SsoSystem.Token.VerifyTheorems — an issued token on its way back through
`token_verify`, and what any accepted text must look like.

`tokenVerify_issued` reduces the verification of an issued token to the scan
of its payload, for every manager that still has the issuing key under the
issuing kid: the buffers never cut the header, the dots are where they were
put, the kid routes to the slot and the MAC is the same.
-/
import SsoSystem.Token.KeyTheorems

namespace SsoSystem

open CMem Decimal Loop List Option

/-! ## §1 Issued texts -/

variable (kid : Bytes) (t : Token)

/-- The payload a token of these claims carries: what its buffer holds of the text. -/
def issuedPayload : Bytes := (payloadJson t).take 1533

/-- The signed text of an HS256 token. -/
def issuedMessage : Bytes :=
  base64urlEncode 256 (headerJson (lit "HS256") kid) ++ 46 :: base64urlEncode 2048 (payloadJson t)

/-- The text of an HS256 token of these claims, signed with `secret` under `kid`. -/
def issuedText (c : Crypto) (secret kid : Bytes) (t : Token) : Bytes :=
  issuedMessage kid t ++ 46 :: macText c secret (issuedMessage kid t)

/-- The two `snprintf`s join their parts if the buffer is long enough. -/
theorem joinDot_eq {size : Nat} {a b : Bytes} (ha : (0 : UInt8) ∉ a) (hb : (0 : UInt8) ∉ b)
    (hlen : a.length + b.length + 1 < size) : joinDot size a b = a ++ 46 :: b := by
  refine strlcpy_eq_self ?_ ?_
  · simp [ha, hb]
  · simp only [length_append, length_cons]
    omega

/-- Base64url text has no terminator in it. -/
theorem nul_not_mem_encode (outputLen : Nat) (input : Bytes) :
    (0 : UInt8) ∉ base64urlEncode outputLen input := not_mem_base64urlEncode (by decide)

/-- And no dot, so `split_token` cuts where the parts were joined. -/
theorem dot_not_mem_encode (outputLen : Nat) (input : Bytes) :
    (46 : UInt8) ∉ base64urlEncode outputLen input := not_mem_base64urlEncode (by decide)

/-- What is signed is header, dot and payload, without truncation. -/
theorem signingInput_eq :
    signingInput (headerJson (lit "HS256") kid) (payloadJson t) = issuedMessage kid t := by
  have hheader := length_base64urlEncode_le 256 (headerJson (lit "HS256") kid)
  have hpayload := length_base64urlEncode_le 2048 (payloadJson t)
  exact joinDot_eq (nul_not_mem_encode _ _) (nul_not_mem_encode _ _) (by omega)

theorem nul_not_mem_issuedMessage : (0 : UInt8) ∉ issuedMessage kid t := by
  simp [issuedMessage, nul_not_mem_encode]

theorem nul_not_mem_macText (c : Crypto) (secret msg : Bytes) :
    (0 : UInt8) ∉ macText c secret msg := nul_not_mem_encode _ _

theorem nul_not_mem_issuedText (c : Crypto) (secret kid : Bytes) (t : Token) :
    (0 : UInt8) ∉ issuedText c secret kid t := by
  simp [issuedText, nul_not_mem_issuedMessage, nul_not_mem_macText]

/-- The bound that keeps the text inside its buffers. -/
theorem length_issuedMessage_le : (issuedMessage kid t).length ≤ 2297 := by
  have hheader := length_base64urlEncode_le 256 (headerJson (lit "HS256") kid)
  have hpayload := length_base64urlEncode_le 2048 (payloadJson t)
  simp only [issuedMessage, length_append, length_cons]
  omega

theorem length_macText_le (c : Crypto) (secret msg : Bytes) :
    (macText c secret msg).length ≤ 128 := length_base64urlEncode_le 129 _

variable {a : IssueArgs} {c : Crypto} {m : TokenManager} {k : UInt32} {env : IssueEnv} {tok : Token}
  {i : Fin 2}

/-- What a successful `token_issue` of a manager in use returns. -/
theorem tokenIssue_ok (hk : m.KeysOk k) (h : tokenIssue c m a env = .ok tok) :
    tok = { issueClaims m a env with
      tokenStr := issuedText c m.active.secret (kidOf k) (issueClaims m a env)
      rawRefreshToken := base64urlEncode 128 env.refreshRand.toList } := by
  have hwrite := write_payload (issueClaims m a env)
  simp only [tokenIssue, write_header hk.kid, hk.mode] at h
  split at h
  · next headerText payloadText hheader hpayload =>
    rw [some.injEq] at hheader
    subst hheader
    rw [hwrite] at hpayload
    split at hpayload
    · rw [some.injEq] at hpayload
      subst hpayload
      simp only [signatureText, hk.mode, TokenMode.alg, signingInput_eq] at h
      have hlen := length_issuedMessage_le (kidOf k) (issueClaims m a env)
      have hmac := length_macText_le c m.active.secret
        (issuedMessage (kidOf k) (issueClaims m a env))
      rw [joinDot_eq (nul_not_mem_issuedMessage _ _) (nul_not_mem_macText _ _ _) (by omega)] at h
      exact (Except.ok.inj h).symm
    · cases hpayload
  · cases h

/-- A manager in use issues a token unless one of its texts is not UTF-8. -/
theorem tokenIssue_isOk_iff (hk : m.KeysOk k) :
    (∃ tok, tokenIssue c m a env = .ok tok) ↔ payloadValid (issueClaims m a env) = true := by
  simp only [tokenIssue, write_header hk.kid, write_payload]
  cases payloadValid (issueClaims m a env) with
  | true => simp [signatureText, hk.mode]
  | false => simp

/-- With an ASCII scope and thumbprint, issuing succeeds. -/
theorem tokenIssue_ascii (c : Crypto) (env : IssueEnv) (hk : m.KeysOk k)
    (hscope : ∀ b ∈ a.scopeText, b.toNat < 0x80) (hjkt : ∀ b ∈ a.jktText, b.toNat < 0x80) :
    ∃ tok, tokenIssue c m a env = .ok tok := by
  refine (tokenIssue_isOk_iff hk).mpr ?_
  have hs : Json.utf8Valid (issueClaims m a env).scope = true :=
    Json.utf8Valid_of_ascii fun b hb => hscope b (mem_of_mem_take hb)
  have hj : Json.utf8Valid (issueClaims m a env).jkt = true :=
    Json.utf8Valid_of_ascii fun b hb => hjkt b (mem_of_mem_take hb)
  have hn : Json.utf8Valid (issueClaims m a env).oauthNonce = true := rfl
  rw [payloadValid, (Json.plainAscii_spec (plainAscii_jti ..)).1, hs, hn, hj]
  rfl

/-! ## §2 The way back -/

/-- The last part may hold dots. -/
theorem splitToken_eq {h p s : Bytes} (hh : (46 : UInt8) ∉ h) (hp : (46 : UInt8) ∉ p) :
    splitToken (h ++ 46 :: (p ++ 46 :: s)) = some (h, p, s) := by
  obtain ⟨htake, hdrop⟩ := takeWhile_ne (r := p ++ 46 :: s) hh
  obtain ⟨ptake, pdrop⟩ := takeWhile_ne (r := s) hp
  simp only [splitToken, hdrop, pdrop, htake, ptake]

/-- An issued text falls into the three parts it was made of. -/
theorem splitToken_issuedText (c : Crypto) (secret kid : Bytes) (t : Token) :
    splitToken (issuedText c secret kid t) =
      some
        (base64urlEncode 256 (headerJson (lit "HS256") kid), base64urlEncode 2048 (payloadJson t),
        macText c secret (issuedMessage kid t)) := by
  rw [issuedText]
  nth_rewrite 1 [issuedMessage]
  rw [append_assoc, cons_append]
  exact splitToken_eq (dot_not_mem_encode _ _) (dot_not_mem_encode _ _)

/-- The kid in the header of an issued text leads back to its key. -/
theorem routingKid_issued (k : UInt32) :
    routingKid (base64urlEncode 256 (headerJson (lit "HS256") (kidOf k))) = kidOf k := by
  have hkid := plainAscii_kidOf k
  have hlen := length_kidOf_le k
  rw [routingKid, base64urlDecode_encode _ (by decide), take_of_length_le, scanHeaderKid,
    headerKid_headerJson (by decide) hkid]
  · exact if_pos (by omega)
  · rw [length_headerJson (by decide) hkid, show (lit "HS256").length = 5 by decide]
    omega

/-- The MAC of an issued token is found valid by every manager that has its key
under its kid. -/
theorem checkSignature_issued {kid secret msg : Bytes} (hmode : m.mode = .hs256) (hkid : kid ≠ [])
    (hroute : m.slotIndexByKid kid = some i) (hsecret : (m.slots i).secret = secret)
    (hhex : isHexStr (macText c secret msg) = false) :
    checkSignature c m kid msg (macText c secret msg) = .ok := by
  have hpop : (m.slots i).populated = true := by
    have hfound := find?_some hroute
    simp only [Bool.and_eq_true] at hfound
    exact hfound.1
  simp [checkSignature, hmode, candidates, hkid, hroute, hpop, macMatches, hhex, hsecret]

/-- The end of `token_verify`: the scan's verdict, then the expiry. -/
def verdict (now : Int64) (s : Scan) : Except SsoError Token :=
  if (s.foundSub && s.foundExp) = true then
    if now > s.tok.expiresAt then .error .tokenExpired else .ok s.tok
  else .error .tokenInvalid

/-- What is accepted has a subject and an expiry that is not over. -/
theorem verdict_ok {now : Int64} {s : Scan} {out : Token} (h : verdict now s = .ok out) :
    s.tok = out ∧ s.foundSub = true ∧ s.foundExp = true ∧ now ≤ out.expiresAt := by
  unfold verdict at h
  split at h
  · next hfound =>
    split at h
    · cases h
    · next hexp =>
      cases h
      rw [gt_iff_lt, Int64.not_lt] at hexp
      simp only [Bool.and_eq_true] at hfound
      exact ⟨rfl, hfound.1, hfound.2, hexp⟩
  · cases h

/-- The scan before its first key. -/
def startScan (tokenStr : Bytes) : Scan where
  tok := { Token.zero with tokenStr := tokenStr }
  foundSub := false
  foundExp := false

theorem bounds_startScan (tokenStr : Bytes) : (startScan tokenStr).Bounds := by
  refine ⟨⟨?_, ?_⟩, ⟨?_, ?_⟩, ?_, ?_⟩ <;> simp [startScan, Token.zero]

theorem map_scanJwtPayload (json tokenStr : Bytes) (now : Int64) :
    ((scanJwtPayload json { Token.zero with tokenStr := tokenStr }).map fun r =>
      if r.1 ≠ .ok then .error r.1
      else if now > r.2.expiresAt then .error .tokenExpired
      else .ok r.2) = (scanFrom (cstr json) (startScan tokenStr)).map (verdict now) := by
  rw [scanJwtPayload, Option.map_map]
  congr 1
  funext s
  simp only [Function.comp_apply, verdict]
  split <;> simp_all

/-- A text whose parts fit the buffers and whose signature is good is accepted or not
by the scan of its payload. -/
theorem tokenVerify_of_parts {h p s : Bytes} (now : Int64)
    (hdot : (46 : UInt8) ∉ h ∧ (46 : UInt8) ∉ p) (hnul : (0 : UInt8) ∉ h ++ 46 :: (p ++ 46 :: s))
    (hlen : h.length < 128 ∧ p.length < 2048 ∧ s.length < 5000)
    (hsig : checkSignature c m (routingKid h) (h ++ 46 :: p) s = .ok) (hne : payloadText p ≠ []) :
    tokenVerify c m now (h ++ 46 :: (p ++ 46 :: s)) =
      (scanFrom (cstr (payloadText p)) (startScan (h ++ 46 :: (p ++ 46 :: s)))).map
      (verdict now) := by
  obtain ⟨hh, hp, hs⟩ := hlen
  have hnul' := hnul
  simp only [mem_append, mem_cons, not_or] at hnul'
  have hwhole : strlcpy 8192 (h ++ 46 :: (p ++ 46 :: s)) = h ++ 46 :: (p ++ 46 :: s) := by
    refine strlcpy_eq_self hnul ?_
    simp only [length_append, length_cons]
    omega
  have hjoin : joinDot 2560 h p = h ++ 46 :: p := joinDot_eq hnul'.1 hnul'.2.2.1 (by omega)
  rw [tokenVerify, cstr_eq_self hnul, splitToken_eq hdot.1 hdot.2]
  dsimp only
  rw [if_neg (by omega), hjoin, hsig, hwhole]
  rw [if_neg hne, map_scanJwtPayload]

/-- Once the kid leads to the signing secret, verifying an issued text is scanning its payload. -/
theorem tokenVerify_issued {t : Token} {secret : Bytes} (hmode : m.mode = .hs256)
    (hroute : m.slotIndexByKid (kidOf k) = some i) (hsecret : (m.slots i).secret = secret)
    (hhex : isHexStr (macText c secret (issuedMessage (kidOf k) t)) = false) (now : Int64) :
    tokenVerify c m now (issuedText c secret (kidOf k) t) =
      (scanFrom (issuedPayload t) (startScan (issuedText c secret (kidOf k) t))).map
        (verdict now) := by
  have hnul := nul_not_mem_issuedText c secret (kidOf k) t
  have hmac := length_macText_le c secret (issuedMessage (kidOf k) t)
  have hheader : (base64urlEncode 256 (headerJson (lit "HS256") (kidOf k))).length < 128 := by
    have hmul := length_base64urlEncode_mul_le 256 (headerJson (lit "HS256") (kidOf k))
    have hkid := length_kidOf_le k
    rw [length_headerJson (by decide) (plainAscii_kidOf k),
      show (lit "HS256").length = 5 by decide] at hmul
    omega
  have hpayload : (base64urlEncode 2048 (payloadJson t)).length < 2048 := by
    have hle := length_base64urlEncode_le 2048 (payloadJson t)
    omega
  have hdecode : payloadText (base64urlEncode 2048 (payloadJson t)) = issuedPayload t :=
    base64urlDecode_encode _ (by decide)
  have hcstr : cstr (issuedPayload t) = issuedPayload t :=
    cstr_eq_self fun h => nul_not_mem_payloadJson t (mem_of_mem_take h)
  have hparts : issuedText c secret (kidOf k) t =
      base64urlEncode 256 (headerJson (lit "HS256") (kidOf k)) ++ 46 ::
        (base64urlEncode 2048 (payloadJson t) ++ 46 ::
          macText c secret (issuedMessage (kidOf k) t)) := by
    rw [issuedText]
    nth_rewrite 1 [issuedMessage]
    rw [append_assoc, cons_append]
  rw [hparts] at hnul ⊢
  rw [tokenVerify_of_parts now ⟨dot_not_mem_encode _ _, dot_not_mem_encode _ _⟩ hnul
      ⟨hheader, hpayload, by omega⟩, hdecode, hcstr]
  · rw [routingKid_issued]
    exact checkSignature_issued hmode (kidOf_ne_nil k) hroute hsecret hhex
  · rw [hdecode]
    simp [issuedPayload, payloadJson, headPart]

/-- The same for a token of `token_issue`, verified by a later manager. -/
theorem tokenVerify_of_tokenIssue {m' : TokenManager} (hk : m.KeysOk k)
    (hissue : tokenIssue c m a env = .ok tok) (hmode : m'.mode = .hs256)
    (hroute : m'.slotIndexByKid (kidOf k) = some i)
    (hsecret : (m'.slots i).secret = m.active.secret)
    (hhex : ∀ h p s, splitToken tok.tokenStr = some (h, p, s) → isHexStr s = false) (now : Int64) :
    tokenVerify c m' now tok.tokenStr =
      (scanFrom (issuedPayload (issueClaims m a env)) (startScan tok.tokenStr)).map
        (verdict now) := by
  have hstr : tok.tokenStr = issuedText c m.active.secret (kidOf k) (issueClaims m a env) := by
    rw [tokenIssue_ok hk hissue]
  rw [hstr] at hhex ⊢
  exact tokenVerify_issued hmode hroute hsecret (hhex _ _ _ (splitToken_issuedText ..)) now

/-! ## §3 A fresh manager -/

/-- A MAC whose base64url text is not hex. -/
def onesCrypto : Crypto where
  hmac := fun _ _ => List.replicate 32 0xFF
  length_hmac := fun _ _ => List.length_replicate
  rsaSign := fun _ _ => none
  rsaVerify := fun _ _ _ => .tokenInvalid

/-- A manager as `token_manager_init` leaves it. -/
def freshManager : TokenManager where
  mode := .hs256
  slots := fun i => if i = ⟨0, Nat.two_pos⟩ then hsSlot 1 (lit "secret") else KeySlot.zero
  activeSlot := ⟨0, Nat.two_pos⟩
  rotationCounter := 1
  defaultTtlMs := 3600000
  nonces := []
  jtis := []

def freshEnv : IssueEnv where
  now := 1000
  jtiRand := Vector.replicate 8 0
  refreshRand := Vector.replicate 32 0

theorem tokenManagerInit_fresh : tokenManagerInit (lit "secret") 3600000 = .ok freshManager :=
  if_neg (by decide)

theorem reachable_fresh : freshManager.Reachable := .start (.init tokenManagerInit_fresh)

/-- These signatures are not taken for hexadecimal text. -/
theorem isHexStr_onesCrypto (secret msg : Bytes) : isHexStr (macText onesCrypto secret msg) =
    false := by
  change isHexStr (base64urlEncode 129 (List.replicate 32 0xFF)) = false
  decide

theorem isHexStr_issued_onesCrypto (hk : m.KeysOk k)
    (hissue : tokenIssue onesCrypto m a env = .ok tok) :
    ∀ h p s, splitToken tok.tokenStr = some (h, p, s) → isHexStr s = false := by
  intro h p s hsplit
  rw [tokenIssue_ok hk hissue, splitToken_issuedText] at hsplit
  cases hsplit
  exact isHexStr_onesCrypto _ _

end SsoSystem
