/-
SsoSystem.Token.NonceTheorems — the nonce table of src/token.c: how it grows,
and bumps of one user's nonce by several threads.

`token_set_nonce` doubles the capacity for every user it has not stored yet,
whether or not there is room. `token_bump_nonce` reads under the lock and
writes under it a second time.
-/
import SsoSystem.Token.VerifyTheorems

namespace SsoSystem

open Run

/-! ## §1 Growth -/

/-- The nonce table with its capacity. -/
structure NonceTable where
  pairs : List (UInt64 × UInt64)
  cap : UInt64

/-- A call of `token_set_nonce`, and whether its `realloc` finds the memory. -/
structure NonceCall where
  uid : UInt64
  nonce : UInt64
  reallocates : Bool

namespace NonceTable

variable (t : NonceTable) (call : NonceCall)

def stored (uid : UInt64) : Bool := t.pairs.any fun n => n.1 == uid

def newCap : UInt64 := if t.cap = 0 then 16 else t.cap * 2

/-- `token_set_nonce`. -/
def setNonce : NonceTable :=
  if t.stored call.uid then
    { t with
      pairs := t.pairs.replaceF fun n =>
        if n.1 == call.uid then some (call.uid, call.nonce) else none }
  else if call.reallocates then ⟨t.pairs ++ [(call.uid, call.nonce)], t.newCap⟩
  else t

def step : Option NonceTable := some (t.setNonce call)

variable {call : NonceCall} {t : NonceTable}

/-- The pairs are those of the token manager's model. -/
theorem pairs_setNonce {m : TokenManager}
    (h : t.pairs = m.nonces) (hcall : call.reallocates = true) :
    (t.setNonce call).pairs = (m.setNonce call.uid call.nonce).nonces := by
  unfold setNonce stored TokenManager.setNonce
  rw [h, hcall]
  split <;> rfl

/-- A call fits: the byte size it asks `realloc` for (16 bytes a pair) does not wrap, and
afterwards the capacity is at most twice the larger of 16 and the number of users. -/
def Fits (t : NonceTable) (call : NonceCall) : Prop :=
  (t.stored call.uid = false → t.newCap.toNat * 16 < 2 ^ 64) ∧
    (t.setNonce call).cap.toNat ≤ 2 * max 16 (t.setNonce call).pairs.length

instance (t : NonceTable) (call : NonceCall) : Decidable (t.Fits call) := by
  unfold Fits
  infer_instance

/-- The call does not add a third user. -/
def AtMostTwo (t : NonceTable) (call : NonceCall) : Prop :=
  t.stored call.uid = false → call.reallocates = true → t.pairs.length < 2

/-- The sizes a table of at most two users can have. -/
def Small (t : NonceTable) : Prop :=
  t.pairs.length = 0 ∧ t.cap = 0 ∨ t.pairs.length = 1 ∧ t.cap = 16 ∨ t.pairs.length = 2 ∧ t.cap = 32

theorem setNonce_of_stored (h : t.stored call.uid = true) :
    (t.setNonce call).pairs.length = t.pairs.length ∧ (t.setNonce call).cap = t.cap := by
  rw [setNonce, if_pos h]
  exact ⟨List.length_replaceF, rfl⟩

theorem fits_iff (h : t.Small) : t.Fits call ↔ t.AtMostTwo call := by
  unfold Fits AtMostTwo
  cases hs : t.stored call.uid with
  | true =>
    obtain ⟨hlen, hcap⟩ := setNonce_of_stored hs
    rw [hlen, hcap]
    rcases h with ⟨hl, hc⟩ | ⟨hl, hc⟩ | ⟨hl, hc⟩ <;> simp [hl, hc]
  | false =>
    rcases h with ⟨hl, hc⟩ | ⟨hl, hc⟩ | ⟨hl, hc⟩ <;> cases hr : call.reallocates <;>
      simp [setNonce, newCap, hs, hl, hc, hr]

theorem Small.setNonce (h : t.Small) (hcall : t.Fits call) : (t.setNonce call).Small := by
  have htwo := (fits_iff h).mp hcall
  cases hs : t.stored call.uid with
  | true =>
    obtain ⟨hlen, hcap⟩ := setNonce_of_stored hs
    unfold Small
    rw [hlen, hcap]
    exact h
  | false =>
    cases hr : call.reallocates with
    | false => simpa [NonceTable.setNonce, hs, hr] using h
    | true =>
      have hlt := htwo hs hr
      rcases h with ⟨hl, hc⟩ | ⟨hl, hc⟩ | ⟨hl, hc⟩
      · simp [Small, NonceTable.setNonce, newCap, hs, hr, hl, hc]
      · simp [Small, NonceTable.setNonce, newCap, hs, hr, hl, hc]
      · omega

/-- The capacity is bounded and no byte size wraps, over any calls, exactly as long as no third
user is stored. -/
theorem growth_iff (calls : List NonceCall) :
    Along step Fits calls ⟨[], 0⟩ ↔ Along step AtMostTwo calls ⟨[], 0⟩ := by
  refine along_congr Small (fun t call h => fits_iff h) ?_ (.inl ⟨rfl, rfl⟩)
  rintro t call _ h hcall ⟨⟩
  exact h.setNonce hcall

/-- With three users there is room for 64. The byte size for the 57th user wraps. -/
theorem third_user_unbounded :
    ¬Along step Fits [⟨1, 1, true⟩, ⟨2, 1, true⟩, ⟨3, 1, true⟩] ⟨[], 0⟩ ∧
      (run step ((List.range 56).map fun i => ⟨UInt64.ofNat i, 1, true⟩) ⟨[], 0⟩).any
        (fun t => decide (t.newCap.toNat * 16 < 2 ^ 64)) = false := by
  decide +kernel

end NonceTable

/-! ## §2 Bumps by several threads -/

/-- The manager, what each thread inside `token_bump_nonce` has read, with the nonces of the
tokens that the user had before it began, and the nonces of all the user's tokens. -/
structure Bumping where
  mgr : TokenManager
  reading : Nat → Option (UInt64 × List UInt64)
  tokens : List UInt64

/-- The first lock section of a bump, the second, or a token of the user. -/
inductive BumpEvent where
  | get (thread : Nat)
  | set (thread : Nat)
  | issue
  deriving DecidableEq, Repr

namespace Bumping

variable {uid : UInt64}

def start (m : TokenManager) : Bumping := ⟨m, fun _ => none, []⟩

/-- The lock sections of `token_bump_nonce` for one user, and `token_issue` reading the nonce. -/
def step (uid : UInt64) (s : Bumping) : BumpEvent → Option Bumping
  | .get i =>
    match s.reading i with
    | none =>
      some { s with reading := Function.update s.reading i (some (s.mgr.getNonce uid, s.tokens)) }
    | some _ => none
  | .set i =>
    (s.reading i).map fun r =>
      { s with mgr := s.mgr.setNonce uid (r.1 + 1), reading := Function.update s.reading i none }
  | .issue => some { s with tokens := s.mgr.getNonce uid :: s.tokens }

/-- The stored nonce. -/
def nonce (uid : UInt64) (s : Bumping) : Nat := (s.mgr.getNonce uid).toNat

/-- No step lowers the stored nonce. A bump that returns has raised it, and the tokens that were
issued before it began are below it. -/
def Raises (uid : UInt64) (s : Bumping) (e : BumpEvent) : Prop :=
  ∀ s', step uid s e = some s' → s.nonce uid ≤ s'.nonce uid ∧
    ∀ i r, e = .set i → s.reading i = some r →
      s.nonce uid < s'.nonce uid ∧ ∀ n ∈ r.2, n.toNat < s'.nonce uid

/-- The bump writes onto the nonce it has read, and not the largest one. -/
def Undisturbed (uid : UInt64) (s : Bumping) (e : BumpEvent) : Prop :=
  ∀ i r, e = .set i → s.reading i = some r → r.1.toNat = s.nonce uid ∧ r.1.toNat + 1 < 2 ^ 64

/-- Tokens and threads have seen no nonce above the stored one. -/
structure Seen (uid : UInt64) (s : Bumping) : Prop where
  tokens : ∀ n ∈ s.tokens, n.toNat ≤ s.nonce uid
  reading : ∀ i r, s.reading i = some r → r.1.toNat ≤ s.nonce uid ∧ ∀ n ∈ r.2, n.toNat ≤ r.1.toNat

variable {s s' : Bumping} {e : BumpEvent}

theorem nonce_set {i : Nat} (h : step uid s (.set i) = some s') :
    ∃ r, s.reading i = some r ∧ s'.nonce uid = (r.1.toNat + 1) % 2 ^ 64 ∧ s'.tokens = s.tokens ∧
      s'.reading = Function.update s.reading i none := by
  obtain ⟨r, hr, rfl⟩ := Option.map_eq_some_iff.mp h
  refine ⟨r, hr, ?_, rfl, rfl⟩
  rw [nonce, TokenManager.getNonce_setNonce, if_pos rfl, UInt64.toNat_add]
  rfl

theorem mgr_of_not_set (h : step uid s e = some s') (he : ∀ i, e ≠ .set i) : s'.mgr = s.mgr := by
  cases e with
  | get i =>
    simp only [step] at h
    split at h <;> cases h
    rfl
  | set i => exact absurd rfl (he i)
  | issue =>
    cases h
    rfl

theorem raises_iff (h : s.Seen uid) : s.Raises uid e ↔ s.Undisturbed uid e := by
  by_cases he : ∀ i, e ≠ .set i
  · refine iff_of_true (fun s' hs' => ⟨?_, fun i _ hi => absurd hi (he i)⟩)
      fun i _ hi => absurd hi (he i)
    rw [nonce, nonce, mgr_of_not_set hs' he]
  · obtain ⟨i, rfl⟩ := not_forall_not.mp he
    constructor
    · rintro hraise _ r ⟨⟩ hr
      obtain ⟨s', hs'⟩ : ∃ s', step uid s (.set i) = some s' := by simp [step, hr]
      obtain ⟨r', hr', hnonce, -, -⟩ := nonce_set hs'
      cases hr.symm.trans hr'
      have hlt := ((hraise s' hs').2 i r rfl hr).1
      have hle := (h.reading i r hr).1
      rw [hnonce] at hlt
      omega
    · intro hset s' hs'
      obtain ⟨r, hr, hnonce, -, -⟩ := nonce_set hs'
      obtain ⟨heq, hmax⟩ := hset i r rfl hr
      rw [Nat.mod_eq_of_lt hmax, heq] at hnonce
      refine ⟨by omega, ?_⟩
      rintro _ r' ⟨⟩ hr'
      cases hr.symm.trans hr'
      refine ⟨by omega, fun n hn => ?_⟩
      have hold := (h.reading i r hr).2 n hn
      omega

theorem Seen.step (h : s.Seen uid) (he : s.Raises uid e) (hs : step uid s e = some s') :
    s'.Seen uid := by
  obtain ⟨hle, -⟩ := he s' hs
  have hkept : (∀ n ∈ s.tokens, n.toNat ≤ s'.nonce uid) ∧ ∀ i r, s.reading i = some r →
      r.1.toNat ≤ s'.nonce uid ∧ ∀ n ∈ r.2, n.toNat ≤ r.1.toNat :=
    ⟨fun n hn => (h.tokens n hn).trans hle,
      fun i r hr => ⟨(h.reading i r hr).1.trans hle, (h.reading i r hr).2⟩⟩
  cases e with
  | get i =>
    simp only [Bumping.step] at hs
    split at hs <;> cases hs
    refine ⟨hkept.1, forall_update_some ?_ hkept.2⟩
    rintro r ⟨⟩
    exact ⟨le_rfl, h.tokens⟩
  | set i =>
    obtain ⟨-, -, -, htokens, hreading⟩ := nonce_set hs
    refine ⟨htokens ▸ hkept.1, ?_⟩
    rw [hreading]
    exact forall_update_some nofun hkept.2
  | issue =>
    cases hs
    exact ⟨List.forall_mem_cons.mpr ⟨le_rfl, hkept.1⟩, hkept.2⟩

/-- Over any interleaving of bumps of one user, the nonce never goes down, every completed bump
raises it, and the tokens from before a bump are below it when it returns, exactly if each bump
writes onto the nonce it read. -/
theorem bumps_raise_iff (uid : UInt64) (m : TokenManager) (es : List BumpEvent) :
    Along (step uid) (Raises uid) es (start m) ↔ Along (step uid) (Undisturbed uid) es (start m) :=
  along_congr (Seen uid) (fun _ _ => raises_iff) (fun _ _ _ h he hs => h.step he hs) ⟨nofun, nofun⟩

/-- A bump that read before two others wrote takes the nonce back from 2 to 1, under a token
that was issued in between. -/
theorem late_write_lowers :
    ((run (step 1) [.get 0, .get 1, .set 1, .get 1, .set 1, .issue] (start freshManager)).map
        (nonce 1) = some 2 ∧
      (run (step 1) [.get 0, .get 1, .set 1, .get 1, .set 1, .issue, .set 0]
      (start freshManager)).map
        (fun s => (s.nonce 1, s.tokens)) = some (1, [2])) := by
  decide +kernel

end Bumping

end SsoSystem
