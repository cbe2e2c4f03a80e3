/-
SsoSystem.Http.TotpTheorems — one-time codes (src/mfa.c) against RFC 6238.

`base32_decode` keeps the bits that do not fill a byte yet in a shift register, so what it has
written and what it holds are together the bits of the characters read
(`base32DecodeFrom_eq`). `accepts_iff` compares `mfa_verify_totp` with the codes of the RFC.
-/
import SsoSystem.Http.Login

namespace SsoSystem.Totp

open CMem Decimal List

/-! ## §1 The codes of the RFC -/

/-- The number that bits spell, highest first. -/
def bitsValue (bits : List Bool) : Nat := bits.foldl (fun n b => 2 * n + b.toNat) 0

/-- The five bits of a base32 character; other characters have none. -/
def base32Bits (c : UInt8) : List Bool :=
  (base32Value c).elim [] fun v => [v.testBit 4, v.testBit 3, v.testBit 2, v.testBit 1, v.testBit 0]

/-- Bits in groups of eight, without the rest. -/
def octets (bits : List Bool) : Bytes :=
  (range (bits.length / 8)).map fun i => UInt8.ofNat (bitsValue ((bits.drop (8 * i)).take 8))

/-- The bytes that a base32 text stands for. -/
def decoded (secret : Bytes) : Bytes := octets ((cstr secret).flatMap base32Bits)

/-- The code of a time step: 31 bits of the MAC of the eight bytes of the step, from where its
last byte points to, modulo a million. -/
def totp (mac : Bytes → Bytes → Bytes) (key : Bytes) (step : Nat) : Nat :=
  let hash := mac key ((range 8).map fun i => UInt8.ofNat (step / 256 ^ (7 - i) % 256))
  let offset := (hash.getD 19 0).toNat % 16
  (range 4).foldl (fun n i => 256 * n + (hash.getD (offset + i) 0).toNat) 0 % 2 ^ 31 % 1000000

/-! ## §2 The decoder -/

@[simp] theorem bitsValue_concat (bits : List Bool) (b : Bool) :
    bitsValue (bits ++ [b]) = 2 * bitsValue bits + b.toNat := by
  simp [bitsValue]

theorem bitsValue_append (front back : List Bool) :
    bitsValue (front ++ back) = bitsValue front * 2 ^ back.length + bitsValue back := by
  induction back using reverseRecOn with
  | nil => simp [bitsValue]
  | append_singleton back b ih =>
    rw [← append_assoc, bitsValue_concat, bitsValue_concat, ih, length_append, length_singleton,
      pow_succ]
    ring

theorem bitsValue_lt (bits : List Bool) : bitsValue bits < 2 ^ bits.length := by
  induction bits using reverseRecOn with
  | nil => decide
  | append_singleton bits b ih =>
    rw [bitsValue_concat, length_append, length_singleton, pow_succ]
    cases b <;> simp <;> omega

theorem base32Bits_of_value {c : UInt8} {v : Nat} (h : base32Value c = some v) :
    (base32Bits c).length = 5 ∧ bitsValue (base32Bits c) = v := by
  have hbits : ∀ v < 32,
    bitsValue [v.testBit 4, v.testBit 3, v.testBit 2, v.testBit 1, v.testBit 0] = v := by
    decide
  have hv : v < 32 := by grind [base32Value]
  simp only [base32Bits, h, Option.elim_some]
  exact ⟨rfl, hbits v hv⟩

theorem octets_append {front : List Bool} (hfront : front.length = 8) (bits : List Bool) :
    octets (front ++ bits) = UInt8.ofNat (bitsValue front) :: octets bits := by
  rw [octets, length_append, hfront, Nat.add_div_left _ (by decide), range_succ_eq_map, map_cons,
    map_map]
  simp only [octets, drop_append, take_append, hfront, Function.comp_def, Nat.mul_succ,
    Nat.add_sub_cancel]
  congr 1
  · simp [take_of_length_le (Nat.le_of_eq hfront), hfront]
  · refine map_congr_left fun i _ => ?_
    rw [drop_eq_nil_of_le (by omega)]
    simp

/-- The loop of the decoder, with the bits in `held` in its register. -/
theorem base32DecodeFrom_eq {maxLen : Nat} {text out : Bytes} {held : List Bool}
    (hheld : held.length < 8)
    (hroom : out.length + (held ++ text.flatMap base32Bits).length / 8 ≤ maxLen) :
    base32DecodeFrom maxLen (bitsValue held) held.length out text =
      out ++ octets (held ++ text.flatMap base32Bits) := by
  induction text generalizing held out with
  | nil => simp [base32DecodeFrom, octets, Nat.div_eq_of_lt hheld]
  | cons c text ih =>
    rw [base32DecodeFrom]
    cases hv : base32Value c with
    | none =>
      simp only [flatMap_cons, base32Bits, hv, Option.elim_none, nil_append] at hroom ⊢
      exact ih hheld hroom
    | some v =>
      obtain ⟨hlength, hvalue⟩ := base32Bits_of_value hv
      have hbuffer : bitsValue held * 32 + v = bitsValue (held ++ base32Bits c) := by
        simp [bitsValue_append, hlength, hvalue]
      have hbits : held.length + 5 = (held ++ base32Bits c).length := by
        rw [length_append, hlength]
      rw [flatMap_cons, ← append_assoc] at hroom ⊢
      simp only [hbuffer, hbits]
      generalize held ++ base32Bits c = bits at hroom hbits ⊢
      split
      · next hshort =>
        rw [Nat.mod_eq_of_lt (bitsValue_lt bits)]
        exact ih hshort hroom
      · next hlong =>
        -- the first eight bits are written, the rest stays in the register
        obtain ⟨front, back, rfl, hfront⟩ : ∃ front back, bits = front ++ back ∧ front.length = 8 :=
          ⟨bits.take 8, bits.drop 8, (take_append_drop 8 bits).symm, by simp; omega⟩
        have hlt : bitsValue front < 256 := by simpa [hfront] using bitsValue_lt front
        rw [append_assoc, octets_append hfront]
        rw [append_assoc, length_append, hfront, Nat.add_div_left _ (by decide)] at hroom
        have hback : (front ++ back).length - 8 = back.length := by simp [hfront]
        rw [if_neg (by omega), hback, bitsValue_append, Nat.add_comm, Nat.add_mul_mod_self_right,
          Nat.mod_eq_of_lt (bitsValue_lt back), Nat.add_mul_div_right _ _ (Nat.two_pow_pos _),
          Nat.div_eq_of_lt (bitsValue_lt back), Nat.zero_add, Nat.mod_eq_of_lt hlt, ih (by omega),
            append_assoc]
        · rfl
        · simp only [length_append, length_singleton] at hroom ⊢
          omega

/-! ## §3 The check -/

variable {P : Platform} {mac : Bytes → Bytes → Bytes}

theorem generateTotp_eq (hmac : ∀ key msg, (P.hmacSha1 key msg).map (·.toList) = some (mac key msg))
    (key : Bytes) (step : UInt64) : generateTotp P key step = totp mac key step.toNat := by
  obtain ⟨hash, hhash, hmac⟩ := Option.map_eq_some_iff.mp (hmac key (stepBytes step))
  simp only [generateTotp, hhash]
  rw [stepBytes] at hmac
  simp only [totp, ← hmac]
  generalize (hash.toList.getD 19 0).toNat % 16 = offset
  have hbyte := fun i => (hash.toList.getD (offset + i) 0).toNat_lt
  have h1 := hbyte 1
  have h2 := hbyte 2
  have h3 := hbyte 3
  simp only [range, range.loop, foldl_cons, foldl_nil, Nat.add_zero]
  refine congrArg (· % 1000000) ?_
  omega

theorem length_sixDigits {n : Nat} (h : n < 1000000) : (sixDigits n).length = 6 := by
  have hle := @length_decimal_le n 6 (by decide) h
  rw [sixDigits, length_append, length_replicate]
  omega

/-- A code is accepted exactly if it is that of the time step before, at or after the time. -/
theorem accepts_iff (hmac : ∀ key msg, (P.hmacSha1 key msg).map (·.toList) = some (mac key msg))
    (secret code : Bytes) (now : UInt64) (hpos : 1 ≤ (decoded secret).length)
    (hmax : (decoded secret).length ≤ 64) (htime : 30 ≤ now.toNat) :
    mfaVerifyTotp P now secret code = true ↔
      ∃ step ∈ [now.toNat / 30 - 1, now.toNat / 30, now.toNat / 30 + 1],
        code = sixDigits (totp mac (decoded secret) step) := by
  have hdecode : base32Decode 64 secret = decoded secret :=
    @base32DecodeFrom_eq 64 (cstr secret) [] [] (by decide) (by simpa [decoded, octets] using hmax)
  have hlt := now.toNat_lt
  have hbefore : (now / 30 - 1).toNat = now.toNat / 30 - 1 := by
    rw [UInt64.toNat_sub_of_le _ _ (UInt64.le_iff_toNat_le.mpr (by simp; omega))]
    rfl
  have hafter : (now / 30 + 1).toNat = now.toNat / 30 + 1 := by
    simp
    omega
  have hlength : ∀ step, (sixDigits (totp mac (decoded secret) step)).length = 6 :=
    fun step => length_sixDigits (Nat.mod_lt _ (by decide))
  simp only [mfaVerifyTotp, hdecode, generateTotp_eq hmac, any_cons, any_nil, hbefore, hafter,
    UInt64.toNat_div]
  grind

/-- A secret of five bytes at second 59, with a MAC that shows the step. -/
theorem sampleCode_accepted :
    mfaVerifyTotp
      { samplePlatform with hmacSha1 := fun _ msg => some (.replicate 20 (msg.getD 7 0)) } 59
      (lit "GEZDGNBV") (lit "843009") = true :=
  (accepts_iff (fun _ _ => rfl) (lit "GEZDGNBV") (lit "843009") 59 (by decide) (by decide)
    (by decide)).mpr
    ⟨1, by decide, by decide⟩

end SsoSystem.Totp
