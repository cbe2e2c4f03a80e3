/-
SsoSystem.Token.KeyTheorems — the two slots of a manager in use.

`keysOk_of_reachable`: the signing slot is always filled and the kids of the
filled slots differ. From it the routing of a kid is unique
(`slotIndexByKid_active`).
-/
import SsoSystem.Token.PayloadTheorems
import SsoSystem.Token.Rotation

namespace SsoSystem

open CMem List

namespace TokenManager

theorem one_sub_one_sub (i : Fin 2) : (1 : Fin 2) - (1 - i) = i := by
  revert i
  decide

theorem one_sub_ne (i : Fin 2) : (1 : Fin 2) - i ≠ i := by
  revert i
  decide

theorem eq_or_eq_one_sub (i j : Fin 2) : j = i ∨ j = 1 - i := by
  revert i j
  decide

variable {m m' : TokenManager} {i : Fin 2} {kid secret : Bytes} {k : UInt32}

/-- A kid that only one slot has leads to it. -/
theorem slotIndexByKid_eq (hpop : (m.slots i).populated = true) (hkid : (m.slots i).kid = kid)
    (hother : (m.slots (1 - i)).populated = true → (m.slots (1 - i)).kid ≠ kid) :
    m.slotIndexByKid kid = some i := by
  have hi : ((m.slots i).populated && (m.slots i).kid == kid) = true := by simp [hpop, hkid]
  have hj : ((m.slots (1 - i)).populated && (m.slots (1 - i)).kid == kid) = false := by
    cases hp : (m.slots (1 - i)).populated with
    | false => rfl
    | true => simpa using hother hp
  have h01 : i = 0 ∨ i = 1 := by omega
  rcases h01 with rfl | rfl
  · simp only [slotIndexByKid, find?_cons, hi]
  · have h0 : ((m.slots 0).populated && (m.slots 0).kid == kid) = false := hj
    simp only [slotIndexByKid, find?_cons, h0, hi]

/-- The slot found is filled and has that kid. -/
theorem slotIndexByKid_some (h : m.slotIndexByKid kid = some i) :
    (m.slots i).populated = true ∧ (m.slots i).kid = kid := by
  have hfound := find?_some h
  simpa using hfound

/-- A kid no slot has leads nowhere. -/
theorem slotIndexByKid_none (h : ∀ i, (m.slots i).populated = true → (m.slots i).kid ≠ kid) :
    m.slotIndexByKid kid = none := by
  rw [slotIndexByKid, find?_eq_none]
  intro i _
  cases hp : (m.slots i).populated with
  | false => simp
  | true => simpa using h i hp

/-! ## §1 Set-up and rotation -/

/-- A rotation fills one slot, under the next number. -/
theorem slots_fillSlot (m : TokenManager) (i j : Fin 2) (secret : Bytes) :
    (m.fillSlot i secret).slots j =
      if j = i then hsSlot (m.rotationCounter + 1) secret else m.slots j := rfl

theorem rotateKey_ok (h : m.rotateKey secret = .ok m') :
    m' = { m.fillSlot (1 - m.activeSlot) secret with activeSlot := 1 - m.activeSlot } :=
  (ok_of_else h).2.symm

/-- The new key is the active one. -/
theorem active_of_rotateKey (h : m.rotateKey secret = .ok m') :
    m'.active = hsSlot (m.rotationCounter + 1) secret := by
  rw [rotateKey_ok h]
  exact if_pos rfl

/-- The key before it stays in the other slot. -/
theorem other_of_rotateKey (h : m.rotateKey secret = .ok m') :
    m'.slots (1 - m'.activeSlot) = m.active := by
  rw [rotateKey_ok h]
  change (m.fillSlot (1 - m.activeSlot) secret).slots (1 - (1 - m.activeSlot)) = _
  rw [one_sub_one_sub, slots_fillSlot, if_neg (one_sub_ne m.activeSlot).symm]
  rfl

/-- What set-up gives: kid 1 signs, the counter is at 1 or 2, and the rings are empty. -/
theorem started_spec (h : m.Started) :
    m.KeysOk 1 ∧ (m.rotationCounter = 1 ∨ m.rotationCounter = 2) ∧ m.sessions = [] := by
  cases h with
  | init h =>
    obtain ⟨-, rfl⟩ := ok_of_else h
    exact ⟨⟨rfl, rfl, rfl, .inl rfl, nofun⟩, .inl rfl, rfl⟩
  | standby h h2 =>
    obtain ⟨-, rfl⟩ := ok_of_else h
    obtain ⟨-, rfl⟩ := ok_of_else h2
    have hcount : (1 : UInt32) = 1 + 1 - 1 := by decide
    exact ⟨⟨rfl, rfl, rfl, .inr hcount, fun _ => ⟨2, rfl, by decide⟩⟩, .inr rfl, rfl⟩

/-- The slots stay in order over a rotation. -/
theorem KeysOk.rotateKey (hm : m.KeysOk k) (h : m.rotateKey secret = .ok m') :
    m'.KeysOk (m.rotationCounter + 1) where
  mode := by
    rw [rotateKey_ok h]
    exact hm.mode
  populated := by rw [active_of_rotateKey h]; rfl
  kid := by rw [active_of_rotateKey h]; rfl
  recent := by
    rw [rotateKey_ok h]
    exact .inl rfl
  other := by
    intro _
    refine ⟨k, by rw [other_of_rotateKey h]; exact hm.kid, ?_⟩
    rcases hm.recent with rfl | rfl
    · simp
    · rw [ne_eq, UInt32.sub_eq_add_neg, UInt32.add_right_inj]
      decide

/-- Registering a session changes the rings alone. -/
theorem registerSession_fst (m : TokenManager) (uid : UInt64) (jti : Bytes) :
    ∃ sessions, (m.registerSession uid jti).1 = { m with sessions } := by
  unfold registerSession
  split
  · exact ⟨_, rfl⟩
  · exact ⟨_, rfl⟩

/-- In every manager in use the signing slot is filled and the kids differ. -/
theorem keysOk_of_reachable (h : m.Reachable) : ∃ k, m.KeysOk k := by
  induction h with
  | start h => exact ⟨1, (started_spec h).1⟩
  | rotate _ h ih =>
    obtain ⟨k, hk⟩ := ih
    exact ⟨_, hk.rotateKey h⟩
  | setNonce _ _ _ ih | revoke _ _ ih =>
    exact ih.imp fun k hk => ⟨hk.mode, hk.populated, hk.kid, hk.recent, hk.other⟩
  | registerSession uid jti _ ih =>
    obtain ⟨tracks, htracks⟩ := registerSession_fst _ uid jti
    rw [htracks]
    exact ih.imp fun k hk => ⟨hk.mode, hk.populated, hk.kid, hk.recent, hk.other⟩

/-- The active kid leads to the active slot. -/
theorem KeysOk.slotIndexByKid_active (h : m.KeysOk k) :
    m.slotIndexByKid (kidOf k) = some m.activeSlot := by
  refine slotIndexByKid_eq h.populated h.kid fun hp he => ?_
  obtain ⟨j, hj, hne⟩ := h.other hp
  rw [hj] at he
  exact hne (kidOf_injective he)

/-- Only the active slot has the active number. -/
theorem KeysOk.kid_slot (h : m.KeysOk k) (hi : (m.slots i).populated = true) :
    ∃ j, (m.slots i).kid = kidOf j ∧ (j = k ↔ i = m.activeSlot) := by
  rcases eq_or_eq_one_sub m.activeSlot i with rfl | rfl
  · exact ⟨k, h.kid, by simp⟩
  · obtain ⟨j, hj, hne⟩ := h.other hi
    exact ⟨j, hj, by simp [hne, one_sub_ne]⟩

/-- The two slots have different kids. -/
theorem KeysOk.kid_injective (h : m.KeysOk k) {j : Fin 2} (hi : (m.slots i).populated = true)
    (hj : (m.slots j).populated = true) (heq : (m.slots i).kid = (m.slots j).kid) : i = j := by
  obtain ⟨a, ha, hai⟩ := h.kid_slot hi
  obtain ⟨b, hb, hbj⟩ := h.kid_slot hj
  rw [ha, hb] at heq
  obtain rfl := kidOf_injective heq
  by_cases hak : a = k
  · rw [hai.mp hak, hbj.mp hak]
  · have hi' : i ≠ m.activeSlot := fun h => hak (hai.mpr h)
    have hj' : j ≠ m.activeSlot := fun h => hak (hbj.mpr h)
    omega

/-! ## §2 Nonces -/

/-- A nonce is set for one user. -/
theorem getNonce_setNonce (m : TokenManager) (uid nonce other : UInt64) :
    (m.setNonce uid nonce).getNonce other = if other = uid then nonce else m.getNonce other := by
  unfold setNonce getNonce
  dsimp only
  generalize m.nonces = l
  induction l with
  | nil => by_cases h : uid = other <;> simp [h, eq_comm (a := other)]
  | cons n l ih =>
    obtain ⟨u, v⟩ := n
    by_cases hu : u = uid
    · by_cases h : uid = other <;> simp [replaceF, hu, h, eq_comm (a := other)]
    · simp only [any_cons, beq_eq_false_iff_ne.mpr hu, Bool.false_or, replaceF] at ih ⊢
      by_cases hany : (l.any fun n => n.1 == uid) = true
      · simp only [hany, if_true, Bool.false_eq_true, if_false, find?_cons] at ih ⊢
        by_cases ho : u = other
        · simp [ho, ho ▸ hu]
        · simpa [beq_eq_false_iff_ne.mpr ho] using ih
      · simp only [hany, Bool.false_eq_true, if_false, cons_append, find?_cons] at ih ⊢
        by_cases ho : u = other
        · simp [ho, ho ▸ hu]
        · simpa [beq_eq_false_iff_ne.mpr ho] using ih

/-- Bumping raises one user's nonce by one. -/
theorem getNonce_bumpNonce (m : TokenManager) (uid other : UInt64) :
    (m.bumpNonce uid).getNonce other =
      if other = uid then m.getNonce uid + 1 else m.getNonce other :=
  getNonce_setNonce m uid _ other

end TokenManager

end SsoSystem
