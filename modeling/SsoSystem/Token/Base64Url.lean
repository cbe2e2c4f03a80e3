/-
SsoSystem.Token.Base64Url — the text encodings of src/token.c: base64url in a
bounded buffer, its decoder, and the hex form of a MAC.

The encoder stops when the next group of four might not fit, so a long input
is cut at a group boundary and nothing says so: `base64urlDecode_encode`
gives back `3 * ((outputLen - 1) / 4)` bytes and no more. The decoder also
takes the classic alphabet's `+` and `/`, and it stops without an error at
the first character it does not know.

Shifts and masks of the source are written as divisions and remainders.
-/
import SsoSystem.Lib.CMem

namespace SsoSystem

open CMem List

/-! ## §1 Tables -/

def b64urlTable : Bytes :=
  lit "ABCDEFGHIJKLMNOPQRSTUVWXYZabcdefghijklmnopqrstuvwxyz0123456789-_"

/-- `b64url_table[i]`. -/
def b64urlChar (i : Nat) : UInt8 := b64urlTable.getD i 0

/-- `b64url_rev`; `none` is its `-1`. -/
def b64urlRev (c : UInt8) : Option Nat :=
  if 65 ≤ c.toNat ∧ c.toNat ≤ 90 then some (c.toNat - 65)
  else if 97 ≤ c.toNat ∧ c.toNat ≤ 122 then some (c.toNat - 97 + 26)
  else if 48 ≤ c.toNat ∧ c.toNat ≤ 57 then some (c.toNat - 48 + 52)
  else if c = 45 ∨ c = 43 then some 62
  else if c = 95 ∨ c = 47 then some 63
  else none

theorem b64urlRev_char {i : Nat} (h : i < 64) : b64urlRev (b64urlChar i) = some i := by
  have hall : ∀ i < 64, b64urlRev (b64urlChar i) = some i := by decide +kernel
  exact hall i h

/-! ## §2 Encoder and decoder -/

/-- The loop of `base64url_encode`, from output position `o` on. A group that
is short of bytes is filled with zero bits and writes two or three characters. -/
def base64urlEncodeFrom (outputLen : Nat) : Nat → Bytes → Bytes
  | _, [] => []
  | o, [a] =>
    if o + 4 < outputLen then
      [b64urlChar (a.toNat / 4), b64urlChar (a.toNat % 4 * 16)]
    else []
  | o, [a, b] =>
    if o + 4 < outputLen then
      [b64urlChar (a.toNat / 4), b64urlChar (a.toNat % 4 * 16 + b.toNat / 16),
        b64urlChar (b.toNat % 16 * 4)]
    else []
  | o, a :: b :: c :: rest =>
    if o + 4 < outputLen then
      b64urlChar (a.toNat / 4) :: b64urlChar (a.toNat % 4 * 16 + b.toNat / 16) ::
        b64urlChar (b.toNat % 16 * 4 + c.toNat / 64) :: b64urlChar (c.toNat % 64) ::
        base64urlEncodeFrom outputLen (o + 4) rest
    else []

/-- `base64url_encode` into a buffer of `outputLen` bytes. -/
def base64urlEncode (outputLen : Nat) (input : Bytes) : Bytes :=
  base64urlEncodeFrom outputLen 0 input

/-- The bytes one group of characters decodes to. A third character that is not
in the alphabet is `-1` in the source, whose two low bits are set. -/
def b64urlQuad (a b : Nat) (c d : Option Nat) : Bytes :=
  UInt8.ofNat (a * 4 + b / 16) ::
    ((match c with | some c => [UInt8.ofNat (b % 16 * 16 + c / 4)] | none => []) ++
     (match d with | some d => [UInt8.ofNat ((c.getD 3) % 4 * 64 + d)] | none => []))

/-- The loop of `base64url_decode`, with room for `room` more bytes. -/
def base64urlDecodeFrom : Nat → Bytes → Bytes
  | _, [] => []
  | _, [_] => []
  | room, [x, y] =>
    match b64urlRev x, b64urlRev y with
    | some a, some b => (b64urlQuad a b none none).take room
    | _, _ => []
  | room, [x, y, z] =>
    match b64urlRev x, b64urlRev y with
    | some a, some b => (b64urlQuad a b (b64urlRev z) none).take room
    | _, _ => []
  | room, x :: y :: z :: w :: rest =>
    match b64urlRev x, b64urlRev y with
    | some a, some b =>
      if room = 0 then []
      else
        let group := (b64urlQuad a b (b64urlRev z) (b64urlRev w)).take room
        group ++ base64urlDecodeFrom (room - group.length) rest
    | _, _ => []

/-- `base64url_decode` into `outputLen` bytes. -/
def base64urlDecode (outputLen : Nat) (input : Bytes) : Bytes :=
  base64urlDecodeFrom outputLen (cstr input)

/-! ## §3 Hex -/

/-- `"0123456789abcdef"[d]`, the digit `"%02x"` prints. -/
def hexChar (d : Nat) : UInt8 := (lit "0123456789abcdef").getD d 0

/-- `"%02x"`. -/
def hexByte (b : UInt8) : Bytes := [hexChar (b.toNat / 16), hexChar (b.toNat % 16)]

/-- The loop of `to_hex`, from output position `o` on. -/
def toHexFrom (hexLen : Nat) : Nat → Bytes → Bytes
  | _, [] => []
  | o, b :: bs => if o + 3 < hexLen then hexByte b ++ toHexFrom hexLen (o + 2) bs else []

/-- `to_hex` into a buffer of `hexLen` bytes. -/
def toHex (hexLen : Nat) (bin : Bytes) : Bytes := toHexFrom hexLen 0 bin

/-- One of `0-9a-fA-F`. -/
def isHexDigit (c : UInt8) : Bool :=
  (48 ≤ c.toNat && c.toNat ≤ 57) || (97 ≤ c.toNat && c.toNat ≤ 102) ||
    (65 ≤ c.toNat && c.toNat ≤ 70)

/-- `is_hex_str`. -/
def isHexStr (s : Bytes) : Bool := !(cstr s).isEmpty && (cstr s).all isHexDigit

/-! ## §4 What encoded text looks like -/

theorem forall_mem_encodeFrom {p : UInt8 → Prop} (hchar : ∀ i < 64, p (b64urlChar i))
    (outputLen o : Nat)
    (input : Bytes) : ∀ c ∈ base64urlEncodeFrom outputLen o input, p c := by
  fun_induction base64urlEncodeFrom outputLen o input with
  | case1 | case3 | case5 | case7 => simp
  | case2 o a h =>
    have ha := a.toNat_lt
    simp only [forall_mem_cons, not_mem_nil, false_implies, implies_true, and_true]
    exact ⟨hchar _ (by omega), hchar _ (by omega)⟩
  | case4 o a b h =>
    have ha := a.toNat_lt
    have hb := b.toNat_lt
    simp only [forall_mem_cons, not_mem_nil, false_implies, implies_true, and_true]
    exact ⟨hchar _ (by omega), hchar _ (by omega), hchar _ (by omega)⟩
  | case6 o a b c rest h ih =>
    have ha := a.toNat_lt
    have hb := b.toNat_lt
    have hc := c.toNat_lt
    simp only [forall_mem_cons]
    exact ⟨hchar _ (by omega), hchar _ (by omega), hchar _ (by omega), hchar _ (by omega), ih⟩

variable {c : UInt8} {input : Bytes} {outputLen : Nat}

theorem b64urlRev_isSome_of_mem_encode (h : c ∈ base64urlEncode outputLen input) :
    (b64urlRev c).isSome := by
  have hchar : ∀ i < 64, (b64urlRev (b64urlChar i)).isSome := fun i hi => by
    rw [b64urlRev_char hi]
    rfl
  exact forall_mem_encodeFrom (p := fun c => (b64urlRev c).isSome) hchar outputLen 0 input c h

theorem not_mem_base64urlEncode (hc : b64urlRev c = none) :
    c ∉ base64urlEncode outputLen input := by
  intro h
  have hsome := b64urlRev_isSome_of_mem_encode h
  simp [hc] at hsome

theorem length_encodeFrom_le (outputLen : Nat) (o : Nat) (input : Bytes) :
    (base64urlEncodeFrom outputLen o input).length ≤ 4 * ((outputLen - 1 - o) / 4) := by
  fun_induction base64urlEncodeFrom outputLen o input with
  | case1 | case3 | case5 | case7 => simp
  | case2 | case4 => simp; omega
  | case6 o a b c rest h ih =>
    simp only [length_cons]
    omega

theorem length_encodeFrom_mul_le (outputLen : Nat) (o : Nat) (input : Bytes) :
    3 * (base64urlEncodeFrom outputLen o input).length ≤ 4 * input.length + 2 := by
  fun_induction base64urlEncodeFrom outputLen o input with
  | case1 | case2 | case3 | case4 | case5 | case7 => simp
  | case6 o a b c rest h ih =>
    simp only [length_cons]
    omega

theorem length_base64urlEncode_le (outputLen : Nat) (input : Bytes) :
    (base64urlEncode outputLen input).length ≤ 4 * ((outputLen - 1) / 4) := by
  simpa [base64urlEncode] using length_encodeFrom_le outputLen 0 input

theorem length_base64urlEncode_mul_le (outputLen : Nat) (input : Bytes) :
    3 * (base64urlEncode outputLen input).length ≤ 4 * input.length + 2 :=
  length_encodeFrom_mul_le outputLen 0 input

/-! ## §5 Round trip -/

theorem b64urlQuad_group (a b c : UInt8) :
    b64urlQuad (a.toNat / 4) (a.toNat % 4 * 16 + b.toNat / 16)
      (some (b.toNat % 16 * 4 + c.toNat / 64)) (some (c.toNat % 64)) = [a, b, c] := by
  have hb := b.toNat_lt
  have hc := c.toNat_lt
  have h1 : a.toNat / 4 * 4 + (a.toNat % 4 * 16 + b.toNat / 16) / 16 = a.toNat := by omega
  have h2 : (a.toNat % 4 * 16 + b.toNat / 16) % 16 * 16 + (b.toNat % 16 * 4 + c.toNat / 64) / 4
      = b.toNat := by omega
  have h3 : (b.toNat % 16 * 4 + c.toNat / 64) % 4 * 64 + c.toNat % 64 = c.toNat := by omega
  simp only [b64urlQuad, Option.getD_some, h1, h2, h3, UInt8.ofNat_toNat, cons_append, nil_append]

theorem base64urlDecodeFrom_encodeFrom (outputLen : Nat) (o : Nat) (input : Bytes) (room : Nat)
    (hroom : 3 * ((outputLen - 1 - o) / 4) ≤ room) :
    base64urlDecodeFrom room (base64urlEncodeFrom outputLen o input) =
      input.take (3 * ((outputLen - 1 - o) / 4)) := by
  fun_induction base64urlEncodeFrom outputLen o input generalizing room with
  | case1 => simp [base64urlDecodeFrom]
  | case2 o a h =>
    have ha := a.toNat_lt
    have h1 : a.toNat / 4 * 4 + a.toNat % 4 * 16 / 16 = a.toNat := by omega
    rw [base64urlDecodeFrom, b64urlRev_char (by omega), b64urlRev_char (by omega)]
    simp only [b64urlQuad, h1, UInt8.ofNat_toNat, append_nil]
    rw [take_of_length_le (by simp; omega), take_of_length_le (by simp; omega)]
  | case4 o a b h =>
    have ha := a.toNat_lt
    have hb := b.toNat_lt
    have h1 : a.toNat / 4 * 4 + (a.toNat % 4 * 16 + b.toNat / 16) / 16 = a.toNat := by omega
    have h2 : (a.toNat % 4 * 16 + b.toNat / 16) % 16 * 16 + b.toNat % 16 * 4 / 4 = b.toNat := by
      omega
    rw [base64urlDecodeFrom, b64urlRev_char (by omega), b64urlRev_char (by omega),
      b64urlRev_char (by omega)]
    simp only [b64urlQuad, h1, h2, UInt8.ofNat_toNat, append_nil]
    rw [take_of_length_le (by simp; omega), take_of_length_le (by simp; omega)]
  | case6 o a b c rest h ih =>
    have ha := a.toNat_lt
    have hb := b.toNat_lt
    have hc := c.toNat_lt
    -- one more group than the rest of the buffer holds
    have hgroups : 3 * ((outputLen - 1 - o) / 4) = 3 * ((outputLen - 1 - (o + 4)) / 4) + 3 := by
      omega
    rw [base64urlDecodeFrom, b64urlRev_char (by omega), b64urlRev_char (by omega),
      b64urlRev_char (by omega), b64urlRev_char (by omega)]
    have htake : ([a, b, c] : Bytes).take room = [a, b, c] :=
      take_of_length_le (by simp; omega)
    simp only [b64urlQuad_group, htake, show room ≠ 0 by omega, if_false, length_cons, length_nil]
    rw [ih (room - (0 + 1 + 1 + 1)) (by omega), hgroups]
    simp
  | case3 o a h | case5 o a b h | case7 o a b c rest h =>
    have hzero : (outputLen - 1 - o) / 4 = 0 := by omega
    simp [hzero, base64urlDecodeFrom]

/-- Encoding into a buffer and decoding again gives back as many whole groups
of three bytes as the buffer holds groups of four characters. -/
theorem base64urlDecode_encode {outputLen room : Nat} (input : Bytes)
    (hroom : 3 * ((outputLen - 1) / 4) ≤ room) :
    base64urlDecode room (base64urlEncode outputLen input) =
      input.take (3 * ((outputLen - 1) / 4)) := by
  have hnul : (0 : UInt8) ∉ base64urlEncode outputLen input := not_mem_base64urlEncode (by decide)
  rw [base64urlDecode, cstr_eq_self hnul, base64urlEncode]
  simpa using base64urlDecodeFrom_encodeFrom outputLen 0 input room (by simpa using hroom)

/-! ## §6 Hex text -/

theorem hexChar_injective : ∀ d < 16, ∀ e < 16, hexChar d = hexChar e → d = e := by decide +kernel

theorem hexByte_injective {a b : UInt8} (h : hexByte a = hexByte b) : a = b := by
  have ha := a.toNat_lt
  have hb := b.toNat_lt
  simp only [hexByte, cons.injEq, and_true] at h
  have hhigh := hexChar_injective _ (by omega) _ (by omega) h.1
  have hlow := hexChar_injective _ (Nat.mod_lt _ (by decide)) _ (Nat.mod_lt _ (by decide)) h.2
  exact UInt8.toNat_inj.mp (by omega)

theorem length_flatMap_hexByte (bs : Bytes) : (bs.flatMap hexByte).length = 2 * bs.length := by
  induction bs with
  | nil => rfl
  | cons b bs ih =>
    rw [flatMap_cons, length_append, ih, length_cons]
    simp only [hexByte, length_cons, length_nil]
    omega

theorem flatMap_hexByte_injective {as bs : Bytes} (h : as.flatMap hexByte = bs.flatMap hexByte) :
    as = bs := by
  induction as generalizing bs with
  | nil =>
    cases bs with
    | nil => rfl
    | cons b bs => simp [hexByte] at h
  | cons a as ih =>
    cases bs with
    | nil => simp [hexByte] at h
    | cons b bs =>
      obtain ⟨hhead, htail⟩ := append_inj h rfl
      rw [hexByte_injective hhead, ih htail]

theorem nul_not_mem_hex (bs : Bytes) : (0 : UInt8) ∉ bs.flatMap hexByte := by
  have hdigit : ∀ d < 16, hexChar d ≠ 0 := by decide +kernel
  simp only [mem_flatMap, not_exists, not_and]
  intro b _ h0
  have hb := b.toNat_lt
  simp only [hexByte, mem_cons, not_mem_nil, or_false] at h0
  rcases h0 with h0 | h0
  · exact hdigit _ (by omega) h0.symm
  · exact hdigit _ (by omega) h0.symm

end SsoSystem
