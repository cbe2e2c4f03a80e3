/-
SsoSystem.Tenancy.TenantKeyTheorems — tokens stay with their tenant as long as
the contexts have different keys.

One fact carries it: a manager that has no slot filled with the signing key
rejects the token (`tokenVerify_foreign`), provided that the MAC tells keys
apart. The run then only has to keep the keys of the contexts apart.
-/
import SsoSystem.Tenancy.TenantKeys
import SsoSystem.Token.RotationTheorems

namespace SsoSystem

open CMem List Option

/-! ## §1 Foreign tokens -/

/-- MACs of one message under different keys differ. -/
def Crypto.TellsKeys (c : Crypto) : Prop :=
  ∀ key key' msg, key.length = 32 → key'.length = 32 → c.hmac key msg = c.hmac key' msg → key = key'

theorem length_toHexFrom (hexLen : Nat) : ∀ (bs : Bytes) (o : Nat), o + 2 * bs.length + 1 < hexLen →
    (toHexFrom hexLen o bs).length = 2 * bs.length
  | [], _, _ => rfl
  | b :: bs, o, h => by
    rw [List.length_cons] at h
    rw [toHexFrom, if_pos (by omega), List.length_append, length_toHexFrom hexLen bs (o + 2)
      (by omega),
      List.length_cons]
    simp only [hexByte, List.length_cons, List.length_nil]
    omega

theorem macText_ne_toHex (c : Crypto) (key key' msg msg' : Bytes) :
    macText c key msg ≠ toHex 129 (c.hmac key' msg') := by
  intro h
  have hb64 := length_base64urlEncode_mul_le 129 (c.hmac key msg)
  have hhex := length_toHexFrom 129 (c.hmac key' msg') 0 (by rw [c.length_hmac]; decide)
  have hlen := congrArg List.length h
  rw [macText, toHex] at hlen
  rw [c.length_hmac] at hb64 hhex
  omega

variable {c : Crypto} {m : TokenManager}

theorem macText_injective {key key' msg msg' : Bytes}
    (h : macText c key msg = macText c key' msg') : c.hmac key msg = c.hmac key' msg' := by
  have hdecode : ∀ key msg, base64urlDecode 96 (macText c key msg) = c.hmac key msg := by
    intro key msg
    rw [macText, base64urlDecode_encode _ (by decide), take_of_length_le]
    rw [c.length_hmac]
    decide
  rw [← hdecode key msg, h, hdecode]

theorem tokenVerify_foreign (hc : c.TellsKeys) (hmode : m.mode = .hs256)
    {key kid : Bytes} (hkey : key.length = 32)
    (hslots : ∀ i, (m.slots i).populated = true → (m.slots i).secret.length = 32 ∧
    (m.slots i).secret ≠ key)
    (t : Token) (now : Int64) :
    ∃ err, tokenVerify c m now (issuedText c key kid t) = some (.error err) := by
  by_contra hno
  rw [not_exists] at hno
  obtain ⟨header, payload, sig, hsplit, hsig, -⟩ := tokenVerify_not_rejected hno
  rw [cstr_eq_self (nul_not_mem_issuedText c key kid t), splitToken_issuedText] at hsplit
  cases hsplit
  obtain ⟨i, hpop, hmac, -⟩ := checkSignature_ok hmode hsig
  obtain ⟨hlen, hne⟩ := hslots i hpop
  rcases hmac with hhex | hb64
  · exact macText_ne_toHex c _ _ _ _ hhex
  · exact hne (hc _ _ _ hlen hkey (macText_injective hb64).symm)

/-! ## §2 Keys of a new context -/

theorem length_secretBuffer (secret : Bytes) : (secretBuffer secret).length = 32 := by
  simp only [secretBuffer, length_append, length_take, length_replicate]
  omega

theorem secretBuffer_eq_self {secret : Bytes} (h : secret.length = 32) : secretBuffer secret =
    secret := by
  simp [secretBuffer, h, take_of_length_le]

theorem length_initialSecret (cfg : KeyConfig) (envSecret : Option Bytes) (draw : KeyDraw) :
    (initialSecret cfg envSecret draw).length = 32 := by
  unfold initialSecret loadTokenSecret
  split
  · exact length_secretBuffer _
  · split
    · exact length_secretBuffer _
    · split
      · exact Vector.length_toList
      · simp [timestampBytes]

/-- The filled slots of a manager hold the first or the second secret. -/
theorem ssoInitTokens_ok {cfg : KeyConfig} {envSecret : Option Bytes} {draw : KeyDraw}
    (h : ssoInitTokens cfg envSecret draw = .ok m) :
    m.Started ∧ ∀ i, (m.slots i).populated = true →
      (m.slots i).secret = initialSecret cfg envSecret draw ∨
        cstr cfg.tokenSecret2 ≠ [] ∧ (m.slots i).secret = secretBuffer (cstr cfg.tokenSecret2) := by
  have hlen := length_initialSecret cfg envSecret draw
  unfold ssoInitTokens at h
  split at h
  · cases h
  · next m₀ hinit =>
    have hslots : ∀ i, (m₀.slots i).populated = true →
        (m₀.slots i).secret = initialSecret cfg envSecret draw := by
      intro i hpop
      obtain ⟨-, rfl⟩ := ok_of_else hinit
      dsimp only at hpop ⊢
      split at hpop
      · next hi =>
        rw [if_pos hi]
        exact secretBuffer_eq_self hlen
      · cases hpop
    split at h
    · next hsecond =>
      cases hstandby : m₀.initStandby (secretBuffer (cstr cfg.tokenSecret2)) with
      | error err =>
        rw [hstandby] at h
        cases h
        exact ⟨.init hinit, fun i hpop => .inl (hslots i hpop)⟩
      | ok m₁ =>
        obtain rfl : m₁ = m := by
          rw [hstandby] at h
          exact Except.ok.inj h
        refine ⟨.standby hinit hstandby, fun i hpop => ?_⟩
        obtain ⟨-, rfl⟩ := ok_of_else hstandby
        rw [TokenManager.slots_fillSlot] at hpop ⊢
        split
        · exact .inr ⟨hsecond, secretBuffer_eq_self (length_secretBuffer _)⟩
        · next hi =>
          rw [if_neg hi] at hpop
          exact .inl (hslots i hpop)
    · cases h
      exact ⟨.init hinit, fun i hpop => .inl (hslots i hpop)⟩

/-! ## §3 The invariant -/

namespace TenantKeys

variable {c : Crypto} {envSecret : Option Bytes} {s s' : TenantKeys}

/-- Keys of different contexts differ, every filled slot and every issued token has a key
of its own context. -/
structure Inv (c : Crypto) (s : TenantKeys) : Prop where
  wiped : s.config.wiped = s.config
  reachable : ∀ m ∈ s.managers, m.Reachable
  length : ∀ k ∈ s.keys, k.2.length = 32
  apart : ∀ k ∈ s.keys, ∀ k' ∈ s.keys, k.1 ≠ k'.1 → k.2 ≠ k'.2
  slots : ∀ b m, s.managers[b]? = some m →
    ∀ i, (m.slots i).populated = true → (b, (m.slots i).secret) ∈ s.keys
  issued : ∀ e ∈ s.issued, ∃ key kid t,
    e.tok.tokenStr = issuedText c key kid t ∧ (e.tenant, key) ∈ s.keys

variable {i : Nat} {m : TokenManager} {draw : KeyDraw}

theorem Inv.setManager (h : Inv c s) (hm : m.Reachable)
    (hslots : ∀ j, (m.slots j).populated = true → (i, (m.slots j).secret) ∈ s.keys) :
    Inv c (s.setManager i m) := by
  refine ⟨h.wiped, fun m' hm' => ?_, h.length, h.apart, fun b m' hb j hpop => ?_, h.issued⟩
  · rcases mem_or_eq_of_mem_set hm' with hm' | rfl
    · exact h.reachable m' hm'
    · exact hm
  · simp only [TenantKeys.setManager, getElem?_set] at hb
    split at hb
    · next hi =>
      subst hi
      split at hb
      · cases hb
        exact hslots j hpop
      · cases hb
    · exact h.slots b m' hb j hpop

theorem Inv.addKey (h : Inv c s) {key : Bytes} (hlen : key.length = 32)
    (hfresh : ∀ k ∈ s.keys, k.1 ≠ i → k.2 ≠ key) : Inv c { s with keys := (i, key) :: s.keys } := by
  refine ⟨h.wiped, h.reachable, ?_, ?_, fun b m hb j hpop => ?_, fun e he => ?_⟩
  · exact forall_mem_cons.mpr ⟨hlen, h.length⟩
  · intro k hk k' hk' hne
    rcases mem_cons.mp hk with rfl | hk <;> rcases mem_cons.mp hk' with rfl | hk'
    · exact absurd rfl hne
    · exact (hfresh k' hk' hne.symm).symm
    · exact hfresh k hk hne
    · exact h.apart k hk k' hk' hne
  · exact mem_cons_of_mem _ (h.slots b m hb j hpop)
  · obtain ⟨key', kid, t, hstr, hkey⟩ := h.issued e he
    exact ⟨key', kid, t, hstr, mem_cons_of_mem _ hkey⟩

theorem inv_start {cfg : KeyConfig} (hs : start cfg envSecret draw = .ok s) : Inv c s := by
  unfold start at hs
  cases hinit : ssoInitTokens cfg envSecret draw with
  | error err =>
    rw [hinit] at hs
    cases hs
  | ok m =>
    rw [hinit] at hs
    cases hs
    obtain ⟨hstarted, hslots⟩ := ssoInitTokens_ok hinit
    refine ⟨rfl, ?_, ?_, ?_, fun b m' hb i hpop => ?_, by nofun⟩
    · simpa using TokenManager.Reachable.start hstarted
    · simp [length_initialSecret, length_secretBuffer]
    · simp
    · obtain ⟨rfl, rfl⟩ : b = 0 ∧ m = m' := by
        cases b with
        | zero => exact ⟨rfl, some.inj hb⟩
        | succ b => cases hb
      rcases hslots i hpop with hkey | ⟨-, hkey⟩
      · rw [hkey]
        exact mem_cons_self
      · rw [hkey]
        exact mem_cons_of_mem _ mem_cons_self

theorem Inv.provision (h : Inv c s) (hfresh : FreshKeys envSecret s (.provision draw))
    (hinit : ssoInitTokens s.config envSecret draw = .ok m) :
    Inv c { s with
      managers := s.managers ++ [m]
      keys := (s.managers.length, initialSecret s.config envSecret draw) :: s.keys } := by
  obtain ⟨henv, r, hr, hnew⟩ := hfresh
  have hsecret : s.config.tokenSecret = [] := by rw [← h.wiped]; rfl
  have hsecret2 : s.config.tokenSecret2 = [] := by rw [← h.wiped]; rfl
  have hkey : initialSecret s.config envSecret draw = r.toList := by
    simp [initialSecret, loadTokenSecret, hsecret, henv, hr, show cstr [] = [] from rfl]
  have hadd := h.addKey (i := s.managers.length) (length_initialSecret s.config envSecret draw)
    fun k hk _ => hkey ▸ hnew k hk
  obtain ⟨hstarted, hslots⟩ := ssoInitTokens_ok hinit
  refine ⟨h.wiped, ?_, hadd.length, hadd.apart, fun b m' hb i hpop => ?_, hadd.issued⟩
  · intro m' hm'
    rcases mem_append.mp hm' with hm' | hm'
    · exact h.reachable m' hm'
    · rw [mem_singleton.mp hm']
      exact .start hstarted
  · rw [getElem?_append] at hb
    split at hb
    · exact hadd.slots b m' hb i hpop
    · next hb' =>
      rw [getElem?_singleton] at hb
      split at hb
      · next hzero =>
        cases hb
        obtain rfl : b = s.managers.length := by omega
        rcases hslots i hpop with hkey | ⟨hno, -⟩
        · rw [hkey]
          exact mem_cons_self
        · exact absurd (by rw [hsecret2]; rfl) hno
      · cases hb

theorem slots_rotateKey {m m' : TokenManager} {secret : Bytes} (h : m.rotateKey secret = .ok m')
    {j : Fin 2} (hpop : (m'.slots j).populated = true) :
    (m'.slots j).secret = secretBuffer secret ∨
      (m.slots j).populated = true ∧ (m'.slots j).secret = (m.slots j).secret := by
  obtain ⟨-, rfl⟩ := ok_of_else h
  rw [TokenManager.slots_fillSlot] at hpop ⊢
  split
  · exact .inl rfl
  · next hj =>
    rw [if_neg hj] at hpop
    exact .inr ⟨hpop, rfl⟩

theorem Inv.step (h : Inv c s) {e : TenantKeyEvent} (hfresh : FreshKeys envSecret s e)
    (hs : s.step c envSecret e = some s') : Inv c s' := by
  cases e with
  | provision draw =>
    simp only [TenantKeys.step] at hs
    split at hs
    · next m hinit =>
      cases hs
      exact h.provision hfresh hinit
    · cases hs
      exact h
  | issue i args env =>
    simp only [TenantKeys.step] at hs
    split at hs
    · next m hm =>
      split at hs
      · next tok hissue =>
        cases hs
        obtain ⟨k, hk⟩ := TokenManager.keysOk_of_reachable (h.reachable m (mem_of_getElem? hm))
        refine ⟨h.wiped, h.reachable, h.length, h.apart, h.slots, ?_⟩
        refine forall_mem_cons.mpr ⟨⟨m.active.secret, kidOf k, issueClaims m args env, ?_, ?_⟩,
          h.issued⟩
        · rw [tokenIssue_ok hk hissue]
        · exact h.slots i m hm _ hk.populated
      · cases hs
        exact h
    · cases hs
      exact h
  | rotate i secret =>
    simp only [TenantKeys.step] at hs
    split at hs
    · next m hm =>
      split at hs
      · next m' hrotate =>
        cases hs
        have hadd := h.addKey (length_secretBuffer secret) hfresh
        refine hadd.setManager (.rotate (h.reachable m (mem_of_getElem? hm)) hrotate) fun j hpop =>
          ?_
        rcases slots_rotateKey hrotate hpop with hkey | ⟨hpop', hkey⟩
        · rw [hkey]
          exact mem_cons_self
        · rw [hkey]
          exact hadd.slots i m hm j hpop'
      · cases hs
        exact h
    · cases hs
      exact h
  | setNonce i uid nonce =>
    simp only [TenantKeys.step] at hs
    split at hs
    · next m hm =>
      cases hs
      exact h.setManager (.setNonce uid nonce (h.reachable m (mem_of_getElem? hm)))
        fun j hpop => h.slots i m hm j hpop
    · cases hs
      exact h
  | revoke i jti =>
    simp only [TenantKeys.step] at hs
    split at hs
    · next m hm =>
      cases hs
      exact h.setManager (.revoke jti (h.reachable m (mem_of_getElem? hm)))
        fun j hpop => h.slots i m hm j hpop
    · cases hs
      exact h

theorem Inv.confined (h : Inv c s) (hc : c.TellsKeys) (dpop : DpopVerifier) :
    s.Confined c dpop := by
  intro e he b m hm hne now
  obtain ⟨key, kid, t, hstr, hkey⟩ := h.issued e he
  obtain ⟨k, hk⟩ := TokenManager.keysOk_of_reachable (h.reachable m (mem_of_getElem? hm))
  have hreject : ∃ err, tokenVerify c m now e.tok.tokenStr = some (.error err) := by
    rw [hstr]
    refine tokenVerify_foreign hc hk.mode (h.length _ hkey) (fun i hpop => ?_) t now
    have hslot := h.slots b m hm i hpop
    exact ⟨h.length _ hslot, h.apart _ hslot _ hkey hne⟩
  refine ⟨hreject, fun ctx req hctx hreq => ?_⟩
  obtain ⟨err, herr⟩ := hreject
  unfold authenticateRequest
  split
  · exact ⟨_, rfl⟩
  · rw [hctx, hreq, herr]
    exact ⟨err, rfl⟩

/-! ## §4 Runs -/

theorem confined_of_freshKeys (c : Crypto) (hc : c.TellsKeys) (dpop : DpopVerifier)
    (cfg : KeyConfig)
    (envSecret : Option Bytes) (draw : KeyDraw) (events : List TenantKeyEvent) (s₀ s : TenantKeys)
    (hstart : start cfg envSecret draw = .ok s₀)
    (hfresh : Run.Along (step c envSecret) (FreshKeys envSecret) events s₀)
    (hrun : Run.run (step c envSecret) events s₀ = some s) : s.Confined c dpop :=
  (Run.invariant_of_run (fun _ _ _ h he hs => h.step he hs) (inv_start hstart) hfresh hrun).confined
    hc dpop

/-- A stand-in for HMAC that tells keys apart: the key itself. -/
def keyCrypto : Crypto where
  hmac := fun key _ => (key ++ List.replicate 32 0).take 32
  length_hmac := fun key _ => by simp
  rsaSign := fun _ _ => none
  rsaVerify := fun _ _ _ => .tokenInvalid

theorem tellsKeys_keyCrypto : keyCrypto.TellsKeys := by
  intro key key' msg hlen hlen' h
  simpa [keyCrypto, take_append_of_le_length, hlen, hlen'] using h

/-- A server without configured secrets. -/
def bareConfig : KeyConfig where
  tokenSecret := []
  tokenSecret2 := []
  tokenTtlMs := 3600000

/-- Random bytes that are all equal. -/
def drawOf (b : UInt8) : KeyDraw where
  urandom := some (Vector.replicate 32 b)
  now := 0
  buffer := Vector.replicate 32 0

def oneMinute : IssueArgs where
  userId := 1
  roleIds := []
  groupIds := []
  scope := none
  ttlMs := 60000
  dpopJkt := none

/-- Two tenants are set up, and the first issues a token. -/
def twoTenants : List TenantKeyEvent :=
  [.provision (drawOf 1), .provision (drawOf 2), .issue 1 oneMinute freshEnv]

instance (envSecret : Option Bytes) (s : TenantKeys) (e : TenantKeyEvent) :
    Decidable (FreshKeys envSecret s e) := by
  cases e <;> dsimp only [FreshKeys] <;> infer_instance

/-- With random keys that differ, the second tenant rejects the first one's token. -/
theorem random_keys_confined : ∃ s₀ s,
    start bareConfig none (drawOf 0) = .ok s₀ ∧
    Run.run (step keyCrypto none) twoTenants s₀ = some s ∧ s.issued.length = 1 ∧
    s.Confined keyCrypto fun _ _ _ jkt => .ok jkt := by
  have hseen : ((start bareConfig none (drawOf 0)).toOption.bind fun s₀ =>
      (Run.run (step keyCrypto none) twoTenants s₀).map fun s => (s.issued.length,
        decide (Run.Along (step keyCrypto none) (FreshKeys none) twoTenants s₀))) =
      some (1, true) := by
    decide +kernel
  obtain ⟨s₀, hstart, hseen⟩ := bind_eq_some_iff.mp hseen
  obtain ⟨s, hrun, hs⟩ := map_eq_some_iff.mp hseen
  obtain ⟨hlength, hfresh⟩ := Prod.mk.inj hs
  have hstart := ok_of_toOption hstart
  exact ⟨s₀, s, hstart, hrun, hlength, confined_of_freshKeys keyCrypto tellsKeys_keyCrypto _
    bareConfig none (drawOf 0) twoTenants s₀ s hstart (of_decide_eq_true hfresh) hrun⟩

/-- With a secret in the environment both tenants have the same key, and the second
accepts the first one's token. -/
theorem env_secret_shared : ∃ s₀ s e m out,
    keyCrypto.TellsKeys ∧ start bareConfig (some (lit "shared secret")) (drawOf 0) = .ok s₀ ∧
    Run.run (step keyCrypto (some (lit "shared secret"))) twoTenants s₀ = some s ∧
    e ∈ s.issued ∧ e.tenant = 1 ∧ s.managers[2]? = some m ∧
    tokenVerify keyCrypto m 1000 e.tok.tokenStr = some (.ok out) ∧
    ¬ s.Confined keyCrypto fun _ _ _ jkt => .ok jkt := by
  have hseen : ((start bareConfig (some (lit "shared secret")) (drawOf 0)).toOption.bind fun s₀ =>
      (Run.run (step keyCrypto (some (lit "shared secret"))) twoTenants s₀).bind fun s =>
        s.issued.head?.bind fun e => s.managers[2]?.bind fun m =>
          (tokenVerify keyCrypto m 1000 e.tok.tokenStr).bind fun r =>
            r.toOption.map fun _ => e.tenant) = some 1 := by
    decide +kernel
  obtain ⟨s₀, hstart, hseen⟩ := bind_eq_some_iff.mp hseen
  obtain ⟨s, hrun, hseen⟩ := bind_eq_some_iff.mp hseen
  obtain ⟨e, he, hseen⟩ := bind_eq_some_iff.mp hseen
  obtain ⟨m, hm, hseen⟩ := bind_eq_some_iff.mp hseen
  obtain ⟨r, hr, hseen⟩ := bind_eq_some_iff.mp hseen
  obtain ⟨out, hout, htenant⟩ := map_eq_some_iff.mp hseen
  obtain rfl := ok_of_toOption hout
  have hmem := mem_of_head? he
  refine ⟨s₀, s, e, m, out, tellsKeys_keyCrypto, ok_of_toOption hstart, hrun, hmem, htenant, hm, hr,
    ?_⟩
  intro hconfined
  obtain ⟨err, herr⟩ := (hconfined e hmem 2 m hm (by rw [htenant]; decide) 1000).1
  rw [hr] at herr
  cases herr

end TenantKeys

end SsoSystem
