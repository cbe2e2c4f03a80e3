/-
SsoSystem.Token.SoundnessTheorems — what the acceptance of an arbitrary text
says about it.

`Genuine` is what an accepting `token_verify` should establish: three parts,
a MAC of the first two by a filled slot, the claims of the same payload, and,
when the header names a key, that key and no other.
-/
import SsoSystem.Token.OverreadTheorems
import SsoSystem.Token.VerifyTheorems

namespace SsoSystem

open CMem Decimal Loop List Option

/-- The header part, decoded. -/
def headerText (header : Bytes) : Bytes := base64urlDecode 511 header

/-- Slot `i` is the one filled slot with the kid. -/
def TokenManager.OnlySlot (m : TokenManager) (kid : Bytes) (i : Fin 2) : Prop :=
  ∀ j, (m.slots j).populated = true ∧ (m.slots j).kid = kid ↔ j = i

/-- The text `t` is `h.p.s` with `s` the hex or base64url text of the MAC of `h.p`
under the secret of slot `i`; that slot is the one the header's kid names, if it
carries a kid that fits its buffer. -/
structure SignedBy (c : Crypto) (m : TokenManager) (t h p s : Bytes) (i : Fin 2) : Prop where
  form : t = h ++ 46 :: (p ++ 46 :: s)
  header_dot : (46 : UInt8) ∉ h
  payload_dot : (46 : UInt8) ∉ p
  populated : (m.slots i).populated = true
  mac : s = toHex 129 (c.hmac (m.slots i).secret (h ++ 46 :: p)) ∨
    s = base64urlEncode 129 (c.hmac (m.slots i).secret (h ++ 46 :: p))
  kid : ∀ k, headerKid (headerText h) = some k → k.length < 32 → m.OnlySlot k i

/-- What accepting the text `t` with the claims `out` should mean. -/
def Genuine (c : Crypto) (m : TokenManager) (now : Int64) (t : Bytes) (out : Token) : Prop :=
  ∃ h p s i, SignedBy c m (cstr t) h p s i ∧
    scanJwtPayload (payloadText p) { Token.zero with tokenStr := strlcpy 8192 t } =
      some (.ok, out) ∧
    now ≤ out.expiresAt

/-! ## §1 The parts -/

theorem splitToken_some {t h p s : Bytes} (hsplit : splitToken t = some (h, p, s)) :
    t = h ++ 46 :: (p ++ 46 :: s) ∧ (46 : UInt8) ∉ h ∧ (46 : UInt8) ∉ p := by
  have hcut : ∀ {t r : Bytes} {b : UInt8}, t.dropWhile (· != 46) = b :: r →
      t = t.takeWhile (· != 46) ++ 46 :: r := by
    intro t r b hr
    have hb := List.head?_dropWhile_not (· != 46) t
    obtain rfl : b = 46 := by simpa [hr] using hb
    rw [← hr, takeWhile_append_dropWhile]
  unfold splitToken at hsplit
  split at hsplit
  · cases hsplit
  · next b r hr =>
    split at hsplit
    · cases hsplit
    · next b' s' hs =>
      cases hsplit
      refine ⟨?_, not_mem_takeWhile_ne 46 t, not_mem_takeWhile_ne 46 r⟩
      rw [← hcut hs]
      exact hcut hr

theorem routingKid_eq {h k : Bytes} (hk : headerKid (headerText h) = some k)
    (hlen : k.length < 32) :
    routingKid h = k := by
  change headerKid (base64urlDecode 511 h) = some k at hk
  rw [routingKid, scanHeaderKid, hk]
  exact if_pos hlen

variable {c : Crypto} {m : TokenManager} {now : Int64}

theorem checkSignature_ok {kid msg sig : Bytes}
    (hmode : m.mode = .hs256) (h : checkSignature c m kid msg sig = .ok) :
    ∃ i, (m.slots i).populated = true ∧
      (sig = toHex 129 (c.hmac (m.slots i).secret msg) ∨
        sig = base64urlEncode 129 (c.hmac (m.slots i).secret msg)) ∧
      (kid ≠ [] → m.slotIndexByKid kid = some i) := by
  simp only [checkSignature, hmode] at h
  split at h
  · cases h
  · next slots hslots =>
    split at h
    · next hany =>
      obtain ⟨i, hi, hmatch⟩ := any_eq_true.mp hany
      rw [Bool.and_eq_true] at hmatch
      refine ⟨i, hmatch.1, ?_, fun hkid => ?_⟩
      · have hmac := hmatch.2
        unfold macMatches at hmac
        split at hmac
        · exact .inl (beq_iff_eq.mp hmac)
        · exact .inr (beq_iff_eq.mp hmac)
      · unfold candidates at hslots
        rw [if_neg hkid] at hslots
        obtain ⟨j, hj, rfl⟩ := map_eq_some_iff.mp hslots
        rw [mem_singleton.mp hi]
        exact hj
    · cases h

theorem TokenManager.KeysOk.onlySlot {k : UInt32} {kid : Bytes} {i : Fin 2}
    (hm : m.KeysOk k) (hi : m.slotIndexByKid kid = some i) : m.OnlySlot kid i := by
  intro j
  constructor
  · rintro ⟨hpop, hkid⟩
    obtain ⟨hpop', hkid'⟩ := slotIndexByKid_some hi
    exact hm.kid_injective hpop hpop' (hkid.trans hkid'.symm)
  · rintro rfl
    exact slotIndexByKid_some hi

/-! ## §2 Acceptance -/

/-- The steps of a verification that is not a rejection. -/
theorem tokenVerify_not_rejected {t : Bytes} (h : ∀ e, tokenVerify c m now t ≠ some (.error e)) :
    ∃ header payload sig, splitToken (cstr t) = some (header, payload, sig) ∧
      checkSignature c m (routingKid header) (header ++ 46 :: payload) sig = .ok ∧
      tokenVerify c m now t =
        (scanFrom (cstr (payloadText payload)) (startScan (strlcpy 8192 t))).map (verdict now) := by
  unfold tokenVerify at h ⊢
  split at h
  · exact absurd rfl (h _)
  · next header payload sig hsplit =>
    obtain ⟨hform, -, -⟩ := splitToken_some hsplit
    split at h
    · exact absurd rfl (h _)
    · next hlen =>
      rw [if_neg hlen]
      have hnul : (0 : UInt8) ∉ header ++ 46 :: (payload ++ 46 :: sig) := hform ▸ not_mem_cstr t
      have hjoin : joinDot 2560 header payload = header ++ 46 :: payload := by
        refine joinDot_eq (fun hm => hnul ?_) (fun hm => hnul ?_) (by omega)
        · simp [hm]
        · simp [hm]
      rw [hjoin] at h ⊢
      refine ⟨header, payload, sig, hsplit, ?_⟩
      split at h
      · next hsig =>
        refine ⟨hsig, ?_⟩
        split at h
        · exact absurd rfl (h _)
        · next hne => rw [if_neg hne, map_scanJwtPayload]
      · exact absurd rfl (h _)

theorem scanJwtPayload_of_verdict {p str : Bytes} {out : Token}
    (h : (scanFrom (cstr p) (startScan str)).map (verdict now) = some (.ok out)) :
    scanJwtPayload p { Token.zero with tokenStr := str } = some (.ok, out) ∧ now ≤
      out.expiresAt := by
  obtain ⟨s, hscan, hverdict⟩ := map_eq_some_iff.mp h
  obtain ⟨rfl, hsub, hexp, hnow⟩ := verdict_ok hverdict
  refine ⟨?_, hnow⟩
  change (scanFrom (cstr p) (startScan str)).map _ = _
  rw [hscan, map_some, hsub, hexp]
  rfl

/-- A text that is not rejected is accepted as it should be, unless its header's
kid is the empty text or its payload is one the scanner reads past. -/
theorem tokenVerify_genuine_iff {c : Crypto} {m : TokenManager} {now : Int64} {t : Bytes}
    (hm : m.Reachable) (hacc : ∀ e, tokenVerify c m now t ≠ some (.error e)) :
    (∃ out, tokenVerify c m now t = some (.ok out) ∧ Genuine c m now t out) ↔
      ∀ h p s, splitToken (cstr t) = some (h, p, s) →
        headerKid (headerText h) ≠ some [] ∧ ¬Overruns (cstr (payloadText p)) := by
  obtain ⟨k, hk⟩ := TokenManager.keysOk_of_reachable hm
  obtain ⟨header, payload, sig, hsplit, hsig, hverify⟩ := tokenVerify_not_rejected hacc
  constructor
  · rintro ⟨out, hok, h, p, s, i, hsigned, -, -⟩ h' p' s' hsplit'
    rw [hsigned.form, splitToken_eq hsigned.header_dot hsigned.payload_dot] at hsplit'
    cases hsplit'
    constructor
    · intro hkid
      -- the one slot with the empty kid: there is none
      obtain ⟨hpop, hempty⟩ := (hsigned.kid [] hkid (by decide) i).mpr rfl
      obtain ⟨j, hj, -⟩ := hk.kid_slot hpop
      exact kidOf_ne_nil j (hj.symm.trans hempty)
    · intro hover
      rw [hsigned.form, splitToken_eq hsigned.header_dot hsigned.payload_dot] at hsplit
      cases hsplit
      rw [hok, (scanFrom_eq_none_iff _ _).mpr hover] at hverify
      cases hverify
  · intro hcond
    obtain ⟨hkid, hover⟩ := hcond header payload sig hsplit
    obtain ⟨hform, hheader, hpayload⟩ := splitToken_some hsplit
    -- the scan has a result, and it is not a rejection
    obtain ⟨out, hout⟩ : ∃ out, tokenVerify c m now t = some (.ok out) := by
      cases hres : tokenVerify c m now t with
      | none =>
        rw [hres, eq_comm, map_eq_none_iff, scanFrom_eq_none_iff] at hverify
        exact absurd hverify hover
      | some res =>
        cases res with
        | error e => exact absurd hres (hacc e)
        | ok out => exact ⟨out, rfl⟩
    obtain ⟨i, hpop, hmac, hroute⟩ := checkSignature_ok hk.mode hsig
    refine ⟨out, hout, header, payload, sig, i, ⟨hform, hheader, hpayload, hpop, hmac, ?_⟩, ?_⟩
    · intro k' hk' hlen
      have hrouting := routingKid_eq hk' hlen
      rw [hrouting] at hroute
      exact hk.onlySlot (hroute fun hnil => hkid (hnil ▸ hk'))
    · rw [hout] at hverify
      exact scanJwtPayload_of_verdict hverify.symm

/-! ## §3 Two texts -/

/-- A header with nothing but a kid. -/
def kidHeader (kid : Bytes) : Bytes := 123 :: member (lit "kid") (34 :: (kid ++ [34, 125]))

/-- A payload with nothing but a user and an expiry. -/
def smallPayload : Bytes := lit "\x7b\"sub\":1,\"exp\":2000\x7d"

/-- Header and payload under the MAC of `onesCrypto`, which is the same for all keys. -/
def smallToken (kid : Bytes) : Bytes :=
  base64urlEncode 256 (kidHeader kid) ++ 46 :: (base64urlEncode 2048 smallPayload ++ 46 ::
    macText onesCrypto [] [])

def smallClaims (kid : Bytes) : Token :=
  { Token.zero with tokenStr := smallToken kid, userId := 1, expiresAt := 2000 }

/-- The empty kid is accepted for a token of the signing slot, which has another kid. -/
theorem emptyKid_accepted :
    tokenVerify onesCrypto freshManager 1000 (smallToken []) = some (.ok (smallClaims [])) ∧
      ¬Genuine onesCrypto freshManager 1000 (smallToken []) (smallClaims []) := by
  have hparts : (splitToken (cstr (smallToken []))).map (fun x => headerKid (headerText x.1)) =
      some (some []) := by
    decide +kernel
  have hnamed : ∀ i, (freshManager.slots i).populated = true → (freshManager.slots i).kid ≠ [] := by
    decide
  refine ⟨by decide +kernel, ?_⟩
  rintro ⟨h, p, s, i, hsigned, -⟩
  rw [hsigned.form, splitToken_eq hsigned.header_dot hsigned.payload_dot] at hparts
  obtain ⟨hpop, hempty⟩ := (hsigned.kid [] (some.inj hparts) (by decide) i).mpr rfl
  exact hnamed i hpop hempty

/-- The same text with the kid of the signing slot is accepted as it should be. -/
theorem namedKid_genuine :
    ∃ out, tokenVerify onesCrypto freshManager 1000 (smallToken (kidOf 1)) = some (.ok out) ∧
      Genuine onesCrypto freshManager 1000 (smallToken (kidOf 1)) out := by
  have hverify : tokenVerify onesCrypto freshManager 1000 (smallToken (kidOf 1)) =
      some (.ok (smallClaims (kidOf 1))) := by
    decide +kernel
  have hparts : (splitToken (cstr (smallToken (kidOf 1)))).map
    (fun x => (headerKid (headerText x.1),
      (scanFrom (cstr (payloadText x.2.1)) (startScan [])).isSome)) =
        some (some (kidOf 1), true) := by
    decide +kernel
  refine (tokenVerify_genuine_iff reachable_fresh fun e he => ?_).mpr fun h p s hsplit => ?_
  · rw [hverify] at he
    cases he
  · rw [hsplit] at hparts
    obtain ⟨hkid, hscan⟩ := Prod.mk.inj (some.inj hparts)
    refine ⟨fun hempty => kidOf_ne_nil 1 (some.inj (hkid.symm.trans hempty)), fun hover => ?_⟩
    rw [(scanFrom_eq_none_iff _ _).mpr hover] at hscan
    cases hscan

end SsoSystem
