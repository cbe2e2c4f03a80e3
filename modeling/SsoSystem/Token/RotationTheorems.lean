/-
SsoSystem.Token.RotationTheorems — how long an issued token lives.

The two slots hold the keys of the last two generations, so a token is
accepted through the signing slot before the next rotation, through the other
slot until the one after, and by no slot from then on (`keyRun_safe`).
-/
import SsoSystem.Token.IssuedScanTheorems

namespace SsoSystem

open CMem Run List TokenManager

/-! ## §1 Kids along a run -/

/-- The kid of the key that signs after `j` rotations, of a manager whose counter
stood at `n` when it was set up. -/
def kidNumber (n j : Nat) : UInt32 := if j = 0 then 1 else UInt32.ofNat (n + j)

theorem ofNat_succ (n : Nat) : UInt32.ofNat (n + 1) = UInt32.ofNat n + 1 := UInt32.ofNat_add n 1

theorem kidNumber_succ (n j : Nat) : kidNumber n (j + 1) = UInt32.ofNat (n + j) + 1 := by
  rw [kidNumber, if_neg (by omega), ← Nat.add_assoc, ofNat_succ]

variable {n : Nat} {m m' : TokenManager} {c : Crypto} {s : KeyRun} {a : IssueArgs} {env : IssueEnv}
  {tok : Token} {secret : Bytes}

/-- The kids do not repeat for 2^32 rotations, less one for a standby slot. -/
theorem kidNumber_injective {i j : Nat} (hn : 1 ≤ n) (hi : n + i ≤ 2 ^ 32) (hj : n + j ≤ 2 ^ 32)
    (h : kidNumber n i = kidNumber n j) : i = j := by
  have hnat := congrArg UInt32.toNat h
  unfold kidNumber at hnat
  split at hnat <;> split at hnat <;>
    simp only [UInt32.toNat_ofNat', UInt32.toNat_one] at hnat <;> omega

/-! ## §2 The invariant -/

/-- What is known of an issued token in the state `s` of a run. -/
structure Issued.Inv (c : Crypto) (n : Nat) (s : KeyRun) (e : Issued) : Prop where
  ok : tokenIssue c e.mgr e.args e.env = .ok e.tok
  quote : (34 : UInt8) ∉ e.args.jktText
  rotations : e.rotations ≤ s.rotated
  keys : e.mgr.KeysOk (kidNumber n (s.rotated - e.rotations))
  current : e.rotations = 0 → s.mgr.active = e.mgr.active
  previous : e.rotations = 1 → s.mgr.slots (1 - s.mgr.activeSlot) = e.mgr.active

/-- The slots hold the last two keys of the run. -/
structure KeyRun.Inv (c : Crypto) (n : Nat) (s : KeyRun) : Prop where
  keys : s.mgr.KeysOk (kidNumber n s.rotated)
  counter : s.mgr.rotationCounter = UInt32.ofNat (n + s.rotated)
  bound : n + s.rotated ≤ 2 ^ 32
  previous : 0 < s.rotated → (s.mgr.slots (1 - s.mgr.activeSlot)).kid =
    kidOf (kidNumber n (s.rotated - 1))
  issued : ∀ e ∈ s.issued, e.Inv c n s

theorem KeyRun.inv_start (h : m.Started) : (KeyRun.start m).Inv c m.rotationCounter.toNat where
  keys := (started_spec h).1
  counter := by simp [KeyRun.start]
  bound := by
    have := m.rotationCounter.toNat_lt
    simp only [KeyRun.start]
    omega
  previous := fun h => absurd h (by simp [KeyRun.start])
  issued := nofun

theorem KeyRun.Inv.issue (hs : s.Inv c n) (hissue : tokenIssue c s.mgr a env = .ok tok)
    (hquote : (34 : UInt8) ∉ a.jktText) :
    ({ s with issued := ⟨tok, s.mgr, a, env, 0⟩ :: s.issued } : KeyRun).Inv c n := by
  refine ⟨hs.keys, hs.counter, hs.bound, hs.previous, ?_⟩
  intro e he
  rcases mem_cons.mp he with rfl | he
  · exact ⟨hissue, hquote, Nat.zero_le _, hs.keys, fun _ => rfl, fun h => absurd h (by simp)⟩
  · have hold := hs.issued e he
    exact ⟨hold.ok, hold.quote, hold.rotations, hold.keys, hold.current, hold.previous⟩

theorem KeyRun.Inv.rotate (hs : s.Inv c n) (h : s.mgr.rotateKey secret = .ok m')
    (hbound : s.rotated + n < 2 ^ 32) :
    (⟨m', s.rotated + 1, s.issued.map fun i => { i with rotations := i.rotations + 1 }⟩ :
      KeyRun).Inv c n := by
  have hother := other_of_rotateKey h
  have hcounter : m'.rotationCounter = s.mgr.rotationCounter + 1 := by
    rw [rotateKey_ok h]
    rfl
  refine ⟨?_, ?_, by dsimp only; omega, fun _ => ?_, ?_⟩
  · rw [kidNumber_succ, ← hs.counter]
    exact hs.keys.rotateKey h
  · rw [hcounter, hs.counter, ← Nat.add_assoc, ofNat_succ]
  · rw [hother]
    exact hs.keys.kid
  · intro e' he'
    obtain ⟨e, he, rfl⟩ := mem_map.mp he'
    have hold := hs.issued e he
    refine ⟨hold.ok, hold.quote, Nat.succ_le_succ hold.rotations, ?_, fun h => absurd h (by simp),
      ?_⟩
    · rw [Nat.add_sub_add_right]
      exact hold.keys
    · intro hone
      dsimp only at hone ⊢
      rw [hother]
      exact hold.current (by omega)

variable {s' : KeyRun} {k : UInt32} {e : Issued}

theorem KeyRun.Inv.step {e : KeyEvent} (hs : s.Inv c m.rotationCounter.toNat)
    (hok : s.Ok m e) (hstep : s.step c e = some s') : s'.Inv c m.rotationCounter.toNat := by
  cases e with
  | issue a env =>
    simp only [KeyRun.step] at hstep
    split at hstep <;> cases hstep
    · next tok htok => exact hs.issue htok hok
    · exact hs
  | rotate secret =>
    simp only [KeyRun.step] at hstep
    split at hstep <;> cases hstep
    · next m' hm' => exact hs.rotate hm' hok
    · exact hs

/-! ## §3 What the invariant means for the tokens -/

theorem tokenVerify_unrouted (hk : m.KeysOk k)
    (hissue : tokenIssue c m a env = .ok tok) (hmode : m'.mode = .hs256)
    (hroute : m'.slotIndexByKid (kidOf k) = none) (now : Int64) :
    tokenVerify c m' now tok.tokenStr = some (.error .tokenInvalid) := by
  rw [tokenIssue_ok hk hissue]
  rw [tokenVerify, cstr_eq_self (nul_not_mem_issuedText c _ _ _), splitToken_issuedText]
  dsimp only
  rw [routingKid_issued]
  simp [checkSignature, hmode, candidates, kidOf_ne_nil, hroute]

/-- A token whose key is in the slot of its kid is accepted. -/
theorem tokenVerify_routed {i : Fin 2} {now : Int64} (hk : m.KeysOk k)
    (hissue : tokenIssue c m a env = .ok tok) (hquote : (34 : UInt8) ∉ a.jktText)
    (hmode : m'.mode = .hs256) (hroute : m'.slotIndexByKid (kidOf k) = some i)
    (hslot : m'.slots i = m.active)
    (hhex : ∀ h p s, splitToken tok.tokenStr = some (h, p, s) → isHexStr s = false)
    (hnow : now ≤ tok.expiresAt) : ∃ out, tokenVerify c m' now tok.tokenStr = some (.ok out) := by
  obtain ⟨s, hscan, hhead⟩ := @scanFrom_issued m a env hquote tok.tokenStr
  rw [expiresAt_tokenIssue hk hissue, ← hhead.expiresAt] at hnow
  rw [tokenVerify_of_tokenIssue hk hissue hmode hroute (by rw [hslot]) hhex, hscan]
  refine ⟨s.tok, ?_⟩
  have hnot : ¬now > s.tok.expiresAt := by
    rw [gt_iff_lt, Int64.not_lt]
    exact hnow
  simp [verdict, hhead.foundSub, hhead.foundExp, hnot]

theorem KeyRun.Inv.kid_ne {i j : Nat} (hs : s.Inv c n) (hn : 1 ≤ n) (hi : i ≤ s.rotated)
    (hj : j ≤ s.rotated) (hne : i ≠ j) : kidOf (kidNumber n i) ≠ kidOf (kidNumber n j) := by
  have hbound := hs.bound
  intro h
  exact hne (kidNumber_injective hn (by omega) (by omega) (kidOf_injective h))

theorem KeyRun.Inv.routed (hs : s.Inv c n) (hn : 1 ≤ n) (he : e.Inv c n s)
    (hone : e.rotations ≤ 1) :
    ∃ i, s.mgr.slotIndexByKid (kidOf (kidNumber n (s.rotated - e.rotations))) = some i ∧
      s.mgr.slots i = e.mgr.active := by
  rcases Nat.eq_zero_or_pos e.rotations with hzero | hpos
  · refine ⟨s.mgr.activeSlot, ?_, he.current hzero⟩
    rw [hzero]
    exact hs.keys.slotIndexByKid_active
  · have hrot : e.rotations = 1 := by omega
    have hle := he.rotations
    have hslot := he.previous hrot
    refine ⟨1 - s.mgr.activeSlot, slotIndexByKid_eq ?_ ?_ fun _ => ?_, hslot⟩
    · rw [hslot]
      exact he.keys.populated
    · rw [hslot]
      exact he.keys.kid
    · rw [one_sub_one_sub]
      exact hs.keys.kid ▸ hs.kid_ne hn (Nat.le_refl _) (Nat.sub_le _ _) (by omega)

theorem KeyRun.Inv.unrouted (hs : s.Inv c n) (hn : 1 ≤ n) (he : e.Inv c n s)
    (htwo : 2 ≤ e.rotations) :
    s.mgr.slotIndexByKid (kidOf (kidNumber n (s.rotated - e.rotations))) = none := by
  have hle := he.rotations
  refine slotIndexByKid_none fun i _ => ?_
  rcases eq_or_eq_one_sub s.mgr.activeSlot i with rfl | rfl
  · exact hs.keys.kid ▸ hs.kid_ne hn (Nat.le_refl _) (Nat.sub_le _ _) (by omega)
  · rw [hs.previous (by omega)]
    exact hs.kid_ne hn (Nat.sub_le _ _) (Nat.sub_le _ _) (by omega)

theorem KeyRun.Inv.safe (hs : s.Inv c n) (hn : 1 ≤ n) : s.Safe c where
  populated := hs.keys.populated
  kids := fun _ _ => hs.keys.kid_injective
  accepted := by
    intro e he hone hhex now hnow
    have hinv := hs.issued e he
    obtain ⟨i, hroute, hslot⟩ := hs.routed hn hinv hone
    exact tokenVerify_routed hinv.keys hinv.ok hinv.quote hs.keys.mode hroute hslot hhex hnow
  rejected := by
    intro e he htwo now
    have hinv := hs.issued e he
    exact ⟨_, tokenVerify_unrouted hinv.keys hinv.ok hs.keys.mode (hs.unrouted hn hinv htwo) now⟩

/-- In every state of every run without repeated kids the rotation guarantee holds. -/
theorem keyRun_safe {c : Crypto} {m : TokenManager} {es : List KeyEvent} {s : KeyRun}
    (hm : m.Started) (hok : Along (KeyRun.step c) (KeyRun.Ok m) es (KeyRun.start m))
    (hrun : run (KeyRun.step c) es (KeyRun.start m) = some s) : s.Safe c := by
  have hinv : s.Inv c m.rotationCounter.toNat :=
    invariant_of_run (fun _ _ _ hs hok hstep => hs.step hok hstep) (KeyRun.inv_start hm) hok hrun
  refine hinv.safe ?_
  rcases (started_spec hm).2.1 with h | h <;> rw [h] <;> decide

/-- One token and one rotation. -/
theorem one_rotation_safe :
    ∃ s, run (KeyRun.step onesCrypto) [.issue plainArgs freshEnv, .rotate (lit "next")]
        (KeyRun.start freshManager) = some s ∧ s.issued.length = 1 ∧ s.Safe onesCrypto := by
  refine exists_some_of_any (P := fun s => s.issued.length = 1) (by decide +kernel) fun s hrun hs =>
    ⟨hs, ?_⟩
  exact keyRun_safe (.init tokenManagerInit_fresh) (by decide +kernel) hrun

/-! ## §4 The kid that comes back -/

theorem run_rotations (hne : secret ≠ []) (k : Nat) (s : KeyRun) (hs : s.mgr.Reachable) :
    ∃ s', run (KeyRun.step c) (List.replicate k (.rotate secret)) s = some s' ∧
      s'.rotated = s.rotated + k ∧ s'.mgr.Reachable ∧
      s'.mgr.rotationCounter = s.mgr.rotationCounter + UInt32.ofNat k ∧
      s'.issued = s.issued.map fun e => { e with rotations := e.rotations + k } := by
  induction k generalizing s with
  | zero => exact ⟨s, rfl, rfl, hs, by simp, by simp⟩
  | succ k ih =>
    have hrotate : s.mgr.rotateKey secret = .ok _ := if_neg hne
    obtain ⟨s', hrun, hrotated, hreach, hcounter, hissued⟩ :=
      ih ⟨_, s.rotated + 1, s.issued.map fun i => { i with rotations := i.rotations + 1 }⟩
        (.rotate hs hrotate)
    refine ⟨s', ?_, by rw [hrotated]; dsimp only; omega, hreach, ?_, ?_⟩
    · rw [replicate_succ, run, KeyRun.step, hrotate]
      exact hrun
    · rw [hcounter, ofNat_succ]
      dsimp only [fillSlot]
      ac_rfl
    · rw [hissued, map_map]
      refine map_congr_left fun e _ => ?_
      simp only [Function.comp_apply, Issued.mk.injEq, true_and]
      omega

theorem active_of_run_rotations {k : Nat} (hne : secret ≠ []) (hs : s.mgr.Reachable)
    (hrun : run (KeyRun.step c) (List.replicate (k + 1) (.rotate secret)) s = some s') :
    s'.mgr.active = hsSlot s'.mgr.rotationCounter secret := by
  obtain ⟨t, ht, -⟩ := run_rotations (c := c) hne k s hs
  have hrotate : t.mgr.rotateKey secret = .ok _ := if_neg hne
  rw [replicate_succ', run_append, ht, Option.bind_some, run, KeyRun.step, hrotate] at hrun
  cases hrun
  exact active_of_rotateKey hrotate

/-- A fresh manager with a standby slot. -/
def standbyManager : TokenManager := freshManager.fillSlot ⟨1, Nat.one_lt_two⟩ (lit "secret")

theorem started_standby : standbyManager.Started :=
  .standby tokenManagerInit_fresh (if_neg (by decide))

/-- A token is accepted again when rotating brings its kid and its secret back. -/
theorem accepted_after_rotations {k : Nat}
    (hwrap : standbyManager.rotationCounter + UInt32.ofNat (k + 1) = 1) : ∃ s e out,
      run (KeyRun.step onesCrypto)
        (.issue plainArgs freshEnv :: List.replicate (k + 1) (.rotate (lit "secret")))
        (KeyRun.start standbyManager) = some s ∧
      s.rotated = k + 1 ∧ e ∈ s.issued ∧ e.rotations = k + 1 ∧
      tokenVerify onesCrypto s.mgr 1000 e.tok.tokenStr = some (.ok out) := by
  have hne : lit "secret" ≠ [] := by decide
  have hk := (started_spec started_standby).1
  obtain ⟨tok, htok⟩ := tokenIssue_ascii onesCrypto (a := plainArgs) freshEnv hk
    (forall_of_all (by decide)) (forall_of_all (by decide))
  obtain ⟨s, hrun, hrotated, hreach, hcounter, hissued⟩ :=
    run_rotations (c := onesCrypto) hne (k + 1)
    ⟨standbyManager, 0, [⟨tok, standbyManager, plainArgs, freshEnv, 0⟩]⟩ (.start started_standby)
  have hactive := active_of_run_rotations hne (.start started_standby) hrun
  rw [hcounter, hwrap] at hactive
  obtain ⟨k', hk'⟩ := keysOk_of_reachable hreach
  obtain rfl : k' = 1 := by
    have hkid := hk'.kid
    rw [hactive] at hkid
    exact (kidOf_injective hkid).symm
  have hnow : (1000 : Int64) ≤ tok.expiresAt := by
    rw [expiresAt_tokenIssue hk htok]
    decide
  have hslot : s.mgr.slots s.mgr.activeSlot = standbyManager.active := hactive
  obtain ⟨out, hverify⟩ := tokenVerify_routed hk htok (by decide) hk'.mode hk'.slotIndexByKid_active
    hslot (isHexStr_issued_onesCrypto hk htok) hnow
  refine ⟨s, ⟨tok, standbyManager, plainArgs, freshEnv, 0 + (k + 1)⟩, out,
    ?_, by simpa using hrotated,
    by simp [hissued], by simp, hverify⟩
  rw [run, KeyRun.step, KeyRun.start, htok]
  exact hrun

/-- With a standby slot, 2^32 - 1 rotations bring the first kid back: a token that
should have been rejected from the second rotation on is accepted again. -/
theorem wrapped_kid_accepted :
    standbyManager.Started ∧ ∃ s e out,
      run (KeyRun.step onesCrypto)
        (.issue plainArgs freshEnv :: List.replicate 4294967295 (.rotate (lit "secret")))
        (KeyRun.start standbyManager) = some s ∧
      s.rotated < 2 ^ 32 ∧ e ∈ s.issued ∧ 2 ≤ e.rotations ∧
      tokenVerify onesCrypto s.mgr 1000 e.tok.tokenStr = some (.ok out) := by
  refine ⟨started_standby, ?_⟩
  obtain ⟨s, e, out, hrun, hrotated, he, hrot, hverify⟩ :=
    accepted_after_rotations (k := 4294967294) (by decide)
  exact ⟨s, e, out, hrun, by omega, he, by omega, hverify⟩

end SsoSystem
