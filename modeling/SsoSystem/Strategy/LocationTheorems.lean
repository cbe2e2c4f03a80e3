/-
SsoSystem.Strategy.LocationTheorems — what the location strategy matches.

The source scans with `sscanf` and `atoi`, which accept trailing text, octets
over 255, signs and blanks, and it uses 0 both for an unreadable address and
for 0.0.0.0.
-/
import SsoSystem.Permission.Check

namespace SsoSystem

open CMem List Option CheckRequest

/-! ## §1 Masks -/

/-- The first `n` bits of two addresses are the same. -/
def SamePrefix (n : Nat) (a b : UInt32) : Prop :=
  ∀ i < n, a.toBitVec.getMsbD i = b.toBitVec.getMsbD i

instance (n : Nat) (a b : UInt32) : Decidable (SamePrefix n a b) :=
  inferInstanceAs (Decidable (∀ i < n, a.toBitVec.getMsbD i = b.toBitVec.getMsbD i))

theorem getMsbD_allOnes_shiftLeft (k i : Nat) :
    (BitVec.allOnes 32 <<< k).getMsbD i = decide (i + k < 32) := by
  rw [BitVec.getMsbD_shiftLeft, BitVec.getMsbD_allOnes]

theorem getMsbD_cidrMask {pre : UInt32} (hpos : 0 < pre) {i : Nat} (hi : i < 32) :
    (cidrMask pre).toBitVec.getMsbD i = decide (i < pre.toNat) := by
  have hpos : 0 < pre.toNat := UInt32.lt_iff_toNat_lt.mp hpos
  rw [cidrMask]
  split
  · next h =>
    have h : 32 ≤ pre.toNat := UInt32.le_iff_toNat_le.mp h
    have hones : (0xFFFFFFFF : UInt32).toBitVec = BitVec.allOnes 32 <<< 0 := by decide
    rw [hones, getMsbD_allOnes_shiftLeft, decide_eq_decide]
    omega
  · next h =>
    have h : pre.toNat < 32 := by
      have := mt UInt32.le_iff_toNat_le.mpr h
      exact Nat.lt_of_not_le this
    have hsub : (32 - pre).toNat = 32 - pre.toNat := by
      rw [UInt32.toNat_sub_of_le _ _ (UInt32.le_iff_toNat_le.mpr h.le)]
      rfl
    have hshift : ((0xFFFFFFFF : UInt32) <<< (32 - pre)).toBitVec =
        BitVec.allOnes 32 <<< (32 - pre.toNat) := by
      rw [UInt32.toBitVec_shiftLeft, BitVec.shiftLeft_eq']
      congr 1
      show ((32 - pre).toBitVec % 32).toNat = _
      rw [BitVec.toNat_umod]
      show (32 - pre).toNat % 32 = _
      rw [hsub, Nat.mod_eq_of_lt (by omega)]
    rw [hshift, getMsbD_allOnes_shiftLeft, decide_eq_decide]
    omega

variable {pre n : Nat} {ip s : Bytes} {net addr : UInt32} {lz : Bool}

theorem masked_eq_iff {mask : UInt32} (hmask : ∀ i < 32, mask.toBitVec.getMsbD i = decide (i < n))
    (a b : UInt32) : (a &&& mask == b &&& mask) = true ↔ SamePrefix n a b := by
  rw [beq_iff_eq]
  constructor
  · intro h i hi
    by_cases hi32 : i < 32
    · have hbit := congrArg (fun w : UInt32 => w.toBitVec.getMsbD i) h
      simpa [BitVec.getMsbD_and, hmask i hi32, hi] using hbit
    · rw [BitVec.getMsbD_of_ge _ _ (by omega), BitVec.getMsbD_of_ge _ _ (by omega)]
  · intro h
    refine UInt32.eq_of_toBitVec_eq (BitVec.eq_of_getMsbD_eq fun i hi => ?_)
    rw [UInt32.toBitVec_and, UInt32.toBitVec_and, BitVec.getMsbD_and, BitVec.getMsbD_and,
      hmask i hi]
    by_cases hin : i < n
    · rw [h i hin]
    · simp [hin]

/-- A compiled CIDR item matches when the address is not 0 and agrees on the prefix. -/
theorem ipMatchesCidr_iff {cidr : Bytes} {pre : UInt32}
    (hparse : parseCidr cidr = some (net, pre)) :
    ipMatchesCidr ip cidr net pre = true ↔
      ipToUint ip ≠ 0 ∧ SamePrefix pre.toNat (ipToUint ip) net := by
  unfold ipMatchesCidr
  by_cases hip : ipToUint ip = 0
  · simp [hip]
  · simp only [hip, if_false, ne_eq, not_false_eq_true, true_and, hparse]
    split
    · next hpos => exact masked_eq_iff (fun i hi => getMsbD_cidrMask hpos hi) _ _
    · next hzero =>
      obtain rfl : pre = 0 := by
        have hnat : ¬ (0 : UInt32).toNat < pre.toNat := mt UInt32.lt_iff_toNat_lt.mpr hzero
        exact UInt32.toNat_inj.mp (by simpa using hnat)
      rw [if_pos rfl]
      exact masked_eq_iff (fun i _ => by simp) _ _

/-! ## §2 The strict notation -/

variable (leadingZeros : Bool) (len bound : Nat)

/-- A decimal numeral of at most `len` digits and at most `bound`. Whether "010" is one
is left open: both readings of the notation are in use. -/
def numeral (s : Bytes) : Option Nat :=
  if s ≠ [] ∧ s.all isDigit ∧ s.length ≤ len ∧ digitsVal s ≤ bound ∧
      (leadingZeros ∨ s.length = 1 ∨ s.head? ≠ some 48) then
    some (digitsVal s)
  else none

def dot : UInt8 := 46

/-- The address with these octets. -/
def addressOf (a b c d : Nat) : UInt32 := UInt32.ofNat (((a * 256 + b) * 256 + c) * 256 + d)

/-- A well-formed IPv4 address: four octets, nothing else. -/
def ipv4 (s : Bytes) : Option UInt32 :=
  match s.splitOn dot with
  | [a, b, c, d] => do
    return addressOf (← numeral leadingZeros 3 255 a) (← numeral leadingZeros 3 255 b)
      (← numeral leadingZeros 3 255 c) (← numeral leadingZeros 3 255 d)
  | _ => none

/-- A well-formed IPv4 network: an address, a slash, a prefix of 0 to 32. -/
def ipv4Cidr (s : Bytes) : Option (UInt32 × Nat) :=
  match s.splitOn slash with
  | [net, pre] => do
    return (← ipv4 leadingZeros net, ← numeral leadingZeros 2 32 pre)
  | _ => none

/-- The address lies in the network, both well-formed. -/
def InNetwork (cidr ip : Bytes) : Prop :=
  ∃ net pre addr, ipv4Cidr leadingZeros cidr = some (net, pre) ∧
    ipv4 leadingZeros ip = some addr ∧ SamePrefix pre addr net

/-! ## §3 The scanner on strict texts -/

theorem numeral_some {len bound : Nat} (h : numeral lz len bound s = some n) :
    s ≠ [] ∧ (∀ c ∈ s, isDigit c = true) ∧ s.length ≤ len ∧ digitsVal s = n ∧ n ≤ bound := by
  unfold numeral at h
  split at h
  · next hs =>
    cases h
    exact ⟨hs.1, all_eq_true.mp hs.2.1, hs.2.2.1, rfl, hs.2.2.2.1⟩
  · cases h

theorem ne_of_isDigit {c b : UInt8} (h : isDigit c = true) (hb : isDigit b = false) : c ≠ b := by
  rintro rfl
  exact absurd h (by simp [hb])

theorem isSpace_of_isDigit {c : UInt8} (h : isDigit c = true) : isSpace c = false := by
  simp only [isDigit, Bool.and_eq_true, decide_eq_true_eq, UInt8.le_iff_toNat_le] at h
  have h13 : ¬ c ≤ 13 := fun hle => by
    have := UInt8.le_iff_toNat_le.mp hle
    exact absurd (h.1.trans this) (by decide)
  have h32 : c ≠ 32 := fun heq => by
    subst heq
    exact absurd h.1 (by decide)
  simp [isSpace, h13, h32]

theorem scanSigned_digits {s rest : Bytes} (hne : s ≠ []) (hs : ∀ c ∈ s, isDigit c = true)
    (hrest : ∀ c, rest.head? = some c → isDigit c = false) :
    scanSigned (s ++ rest) = (false, s, rest) := by
  obtain ⟨c, s', rfl⟩ := exists_cons_of_ne_nil hne
  have hc := hs c mem_cons_self
  have hspace := isSpace_of_isDigit hc
  have hskip : (c :: s' ++ rest).dropWhile isSpace = c :: (s' ++ rest) := by
    simp [hspace]
  have hend : rest.takeWhile isDigit = [] ∧ rest.dropWhile isDigit = rest := by
    cases rest with
    | nil => exact ⟨rfl, rfl⟩
    | cons d rest => simp [hrest d rfl]
  have htake : (c :: (s' ++ rest)).takeWhile isDigit = c :: s' := by
    rw [← cons_append, takeWhile_append_of_pos hs, hend.1, append_nil]
  have hdrop : (c :: (s' ++ rest)).dropWhile isDigit = rest := by
    rw [← cons_append, dropWhile_append_of_pos hs, hend.2]
  rw [scanSigned, hskip]
  split
  next neg u hsign =>
    split at hsign
    · next r heq => exact absurd (cons.inj heq).1 (ne_of_isDigit hc rfl)
    · next r heq => exact absurd (cons.inj heq).1 (ne_of_isDigit hc rfl)
    · cases hsign
      rw [htake, hdrop]

theorem scanU_numeral {lz : Bool} {n : Nat} {s rest : Bytes}
    (h : numeral lz 3 255 s = some n) (hrest : ∀ c, rest.head? = some c → isDigit c = false) :
    scanU (s ++ rest) = some (UInt32.ofNat n, rest) := by
  obtain ⟨hne, hdigits, -, hval, hbound⟩ := numeral_some h
  have hsmall : ¬ 2 ^ 64 ≤ n := by
    omega
  rw [scanU, scanSigned_digits hne hdigits hrest]
  simp only [hne, hval, if_false, hsmall]
  rfl

theorem shifted_octets {a b c d : Nat} (ha : a ≤ 255) (hb : b ≤ 255) (hc : c ≤ 255)
    (hd : d ≤ 255) :
    (UInt32.ofNat a <<< 24) ||| (UInt32.ofNat b <<< 16) ||| (UInt32.ofNat c <<< 8) |||
      UInt32.ofNat d = addressOf a b c d := by
  have hword : ∀ n, n < UInt32.size → (UInt32.ofNat n).toNat = n := fun n hn =>
    UInt32.toNat_ofNat_of_lt' hn
  have hshift : ∀ (n : Nat) (k : UInt32) (j : Nat), k.toNat = j → j < 32 → n <<< j < UInt32.size →
      n < UInt32.size → (UInt32.ofNat n <<< k).toNat = n <<< j := by
    intro n k j hk hj hlt hn
    rw [UInt32.toNat_shiftLeft, hk, hword n hn, Nat.mod_eq_of_lt hj]
    exact Nat.mod_eq_of_lt hlt
  have hsize : UInt32.size = 4294967296 := rfl
  refine UInt32.toNat_inj.mp ?_
  rw [UInt32.toNat_or, UInt32.toNat_or, UInt32.toNat_or, Nat.or_assoc, Nat.or_assoc,
    hshift a 24 24 rfl (by omega) (by rw [Nat.shiftLeft_eq]; omega) (by omega),
    hshift b 16 16 rfl (by omega) (by rw [Nat.shiftLeft_eq]; omega) (by omega),
    hshift c 8 8 rfl (by omega) (by rw [Nat.shiftLeft_eq]; omega) (by omega),
    hword d (by omega), addressOf, hword _ (by omega),
    ← Nat.shiftLeft_add_eq_or_of_lt (by omega : d < 2 ^ 8),
    ← Nat.shiftLeft_add_eq_or_of_lt (by rw [Nat.shiftLeft_eq]; omega : c <<< 8 + d < 2 ^ 16),
    ← Nat.shiftLeft_add_eq_or_of_lt
      (by rw [Nat.shiftLeft_eq, Nat.shiftLeft_eq]; omega : b <<< 16 + (c <<< 8 + d) < 2 ^ 24),
    Nat.shiftLeft_eq, Nat.shiftLeft_eq, Nat.shiftLeft_eq]
  omega

theorem ipv4_some (h : ipv4 lz s = some addr) :
    ∃ s₁ s₂ s₃ s₄ a b c d, s = s₁ ++ dot :: (s₂ ++ dot :: (s₃ ++ dot :: s₄)) ∧
      numeral lz 3 255 s₁ = some a ∧ numeral lz 3 255 s₂ = some b ∧
      numeral lz 3 255 s₃ = some c ∧ numeral lz 3 255 s₄ = some d ∧ addr = addressOf a b c d := by
  unfold ipv4 at h
  split at h
  · next s₁ s₂ s₃ s₄ hsplit =>
    simp only [bind, bind_eq_some_iff, pure, some.injEq] at h
    obtain ⟨a, ha, b, hb, c, hc, d, hd, rfl⟩ := h
    refine ⟨s₁, s₂, s₃, s₄, a, b, c, d, ?_, ha, hb, hc, hd, rfl⟩
    have hjoin : [dot].intercalate (s.splitOn dot) = s := intercalate_splitOn dot
    rw [hsplit] at hjoin
    simpa [intercalate] using hjoin.symm
  · cases h

theorem ipToUint_ipv4 (h : ipv4 lz s = some addr) : ipToUint s = addr := by
  obtain ⟨s₁, s₂, s₃, s₄, a, b, c, d, rfl, ha, hb, hc, hd, rfl⟩ := ipv4_some h
  have hdot : ∀ (rest : Bytes) (x : UInt8), (dot :: rest).head? = some x → isDigit x = false := by
    rintro rest x hx
    cases hx
    rfl
  have hend : scanU s₄ = some (UInt32.ofNat d, []) := by
    have hscan := @scanU_numeral lz d s₄ [] hd (by simp)
    rwa [append_nil] at hscan
  have hscan : ∀ rest, scanDot (dot :: rest) = some rest := fun _ => rfl
  rw [ipToUint, scanU_numeral ha (hdot _)]
  simp only [bind, bind_some, hscan, scanU_numeral hb (hdot _), scanU_numeral hc (hdot _),
    hend, pure, getD_some]
  exact shifted_octets (numeral_some ha).2.2.2.2 (numeral_some hb).2.2.2.2
    (numeral_some hc).2.2.2.2 (numeral_some hd).2.2.2.2

theorem ipv4_bytes (h : ipv4 lz s = some addr) :
    s.length ≤ 15 ∧ ∀ c ∈ s, isDigit c = true ∨ c = dot := by
  obtain ⟨s₁, s₂, s₃, s₄, a, b, c, d, rfl, ha, hb, hc, hd, -⟩ := ipv4_some h
  obtain ⟨-, ha, hla, -⟩ := numeral_some ha
  obtain ⟨-, hb, hlb, -⟩ := numeral_some hb
  obtain ⟨-, hc, hlc, -⟩ := numeral_some hc
  obtain ⟨-, hd, hld, -⟩ := numeral_some hd
  constructor
  · simp only [length_append, length_cons]
    omega
  · intro x hx
    simp only [mem_append, mem_cons] at hx
    obtain hx | hx | hx | hx | hx | hx | hx := hx
    · exact .inl (ha x hx)
    · exact .inr hx
    · exact .inl (hb x hx)
    · exact .inr hx
    · exact .inl (hc x hx)
    · exact .inr hx
    · exact .inl (hd x hx)

theorem not_mem_ipv4 (h : ipv4 lz s = some addr) {b : UInt8} (hdigit : isDigit b = false)
    (hdot : b ≠ dot) : b ∉ s := fun hb =>
  ((ipv4_bytes h).2 b hb).elim (fun hd => ne_of_isDigit hd hdigit rfl) hdot

theorem strlcpy_ipv4 (h : ipv4 lz s = some addr) : strlcpy 64 s = s :=
  strlcpy_eq_self (not_mem_ipv4 h rfl (by decide)) (by have := (ipv4_bytes h).1; omega)

theorem atoiU_numeral (h : numeral lz 2 32 s = some n) : atoiU s = UInt32.ofNat n := by
  obtain ⟨hne, hdigits, -, hval, hbound⟩ := numeral_some h
  have hscan := @scanSigned_digits s [] hne hdigits (by simp)
  rw [append_nil] at hscan
  have hmin : min n (2 ^ 63 - 1) = n := by omega
  simp only [atoiU, hscan, hval, hmin]
  rfl

theorem ipv4Cidr_some (h : ipv4Cidr lz s = some (net, pre)) :
    ∃ n p, s = n ++ slash :: p ∧ ipv4 lz n = some net ∧ numeral lz 2 32 p = some pre := by
  unfold ipv4Cidr at h
  split at h
  · next n p hsplit =>
    simp only [bind, bind_eq_some_iff, pure, some.injEq, Prod.mk.injEq] at h
    obtain ⟨net, hnet, pre, hpre, rfl, rfl⟩ := h
    refine ⟨n, p, ?_, hnet, hpre⟩
    have hjoin : [slash].intercalate (s.splitOn slash) = s := intercalate_splitOn slash
    rw [hsplit] at hjoin
    simpa [intercalate] using hjoin.symm
  · cases h

theorem strlcpy_ipv4Cidr (h : ipv4Cidr lz s = some (net, pre)) : strlcpy 255 s = s := by
  obtain ⟨n, p, rfl, hn, hp⟩ := ipv4Cidr_some h
  obtain ⟨-, hdigits, hlen, -⟩ := numeral_some hp
  refine strlcpy_eq_self ?_ ?_
  · have hzero : (0 : UInt8) ∉ p := fun h0 => ne_of_isDigit (hdigits 0 h0) rfl rfl
    simp [not_mem_ipv4 hn (b := 0) rfl (by decide), hzero, slash]
  · have := (ipv4_bytes hn).1
    simp only [length_append, length_cons]
    omega

theorem parseCidr_ipv4Cidr (h : ipv4Cidr lz s = some (net, pre)) :
    parseCidr s = some (net, UInt32.ofNat pre) := by
  have hcopy := strlcpy_ipv4Cidr h
  obtain ⟨n, p, rfl, hn, hp⟩ := ipv4Cidr_some h
  have hslash : ∀ c ∈ n, decide (c ≠ slash) = true := fun c hc =>
    decide_eq_true fun heq => not_mem_ipv4 hn rfl (by decide) (heq ▸ hc)
  have hdrop : (n ++ slash :: p).dropWhile (fun c => decide (c ≠ slash)) = slash :: p := by
    rw [dropWhile_append_of_pos hslash]
    simp
  have htake : (n ++ slash :: p).takeWhile (fun c => decide (c ≠ slash)) = n := by
    rw [takeWhile_append_of_pos hslash]
    simp
  simp only [parseCidr, hcopy, hdrop, htake, ipToUint_ipv4 hn, atoiU_numeral hp]

/-! ## §4 CIDR items -/

theorem sourceIp_location (user : User) (ip : Bytes) (country : Option Bytes) :
    ((CheckRequest.location ip country).context user).sourceIp = strlcpy 64 ip := by
  cases country with
  | none => exact Block.cstrFrom_strlcpy (by decide) (by decide)
  | some country => exact Block.cstrFrom_strlcpy_strlcpy (by decide) (by decide) (by decide)

/-- The item is one of those compared by prefix, and it matches. -/
def MatchesByCidr (i : LocItem) (ctx : EvalContext) : Prop :=
  i.type = .ipCidr ∧ locMatches ctx i = true

/-- The numbers the lenient scans find agree: everything behind the fourth number and
behind the digits of the prefix is ignored, and an unreadable network is 0. -/
def LenientMatch (value ip : Bytes) : Prop :=
  ∃ net pre, parseCidr (strlcpy 255 value) = some (net, pre) ∧
    ipToUint (strlcpy 64 ip) ≠ 0 ∧ SamePrefix pre.toNat (ipToUint (strlcpy 64 ip)) net

/-- Where the scan and the strict notation say the same. -/
def ReadStrictly (lz : Bool) (value ip : Bytes) : Prop :=
  match ipv4Cidr lz value, ipv4 lz ip with
  | some (net, pre), some addr => addr = 0 → ¬ SamePrefix pre addr net
  | _, _ => ¬ LenientMatch value ip

theorem matchesByCidr_iff_lenient {item : List (Bytes × Json)} {value : Bytes}
    (hvalue : Json.objGet (some (.obj item)) (lit "value") = some (.str value))
    (hgeo : Json.getStr (Json.objGet (some (.obj item)) (lit "type")) ≠ some (lit "geo"))
    (user : User) (ip : Bytes) (country : Option Bytes) :
    MatchesByCidr (locItem (.obj item)) ((CheckRequest.location ip country).context user) ↔
      LenientMatch value ip := by
  have hcopy : Json.copyStr 255 (some (.str value)) = strlcpy 255 value := by
    simp [Json.copyStr, Json.getStr, strlcpy]
  simp only [locItem, hvalue, hcopy, if_neg hgeo, LenientMatch]
  cases hparse : parseCidr (strlcpy 255 value) with
  | none => simp [MatchesByCidr]
  | some found =>
    obtain ⟨net, pre⟩ := found
    simp only [MatchesByCidr, locMatches, true_and, sourceIp_location, some.injEq, Prod.mk.injEq]
    rw [ipMatchesCidr_iff hparse]
    constructor
    · exact fun h => ⟨net, pre, ⟨rfl, rfl⟩, h⟩
    · rintro ⟨_, _, ⟨rfl, rfl⟩, h⟩
      exact h

/-- On well-formed texts the scan differs from the notation only at 0.0.0.0. -/
theorem lenientMatch_of_wellFormed {value : Bytes} (hvalue : ipv4Cidr lz value = some (net, pre))
    (hip : ipv4 lz ip = some addr) :
    LenientMatch value ip ↔ addr ≠ 0 ∧ SamePrefix pre addr net := by
  obtain ⟨-, p, -, -, hp⟩ := ipv4Cidr_some hvalue
  have hpre : (UInt32.ofNat pre).toNat = pre := by
    have := (numeral_some hp).2.2.2.2
    exact UInt32.toNat_ofNat_of_lt' (show pre < UInt32.size by unfold UInt32.size; omega)
  rw [LenientMatch, strlcpy_ipv4Cidr hvalue, strlcpy_ipv4 hip, parseCidr_ipv4Cidr hvalue,
    ipToUint_ipv4 hip]
  constructor
  · rintro ⟨_, _, heq, h⟩
    cases heq
    rwa [hpre] at h
  · intro h
    exact ⟨_, _, rfl, by rwa [hpre]⟩

/-- **CIDR items**: for every value and every address, an item that is not of type "geo"
matches by CIDR as the strict notation says, exactly under `ReadStrictly`. -/
theorem cidrItem_strict_iff (lz : Bool) {item : List (Bytes × Json)} {value : Bytes}
    (hvalue : Json.objGet (some (.obj item)) (lit "value") = some (.str value))
    (hgeo : Json.getStr (Json.objGet (some (.obj item)) (lit "type")) ≠ some (lit "geo"))
    (user : User) (ip : Bytes) (country : Option Bytes) :
    (MatchesByCidr (locItem (.obj item)) ((CheckRequest.location ip country).context user) ↔
      InNetwork lz value ip) ↔ ReadStrictly lz value ip := by
  rw [matchesByCidr_iff_lenient hvalue hgeo]
  unfold ReadStrictly
  split
  · next net pre addr hnet hip =>
    have hin : InNetwork lz value ip ↔ SamePrefix pre addr net := by
      simp [InNetwork, hnet, hip]
    rw [lenientMatch_of_wellFormed hnet hip, hin]
    tauto
  · next hmalformed =>
    have hout : ¬ InNetwork lz value ip := by
      rintro ⟨net, pre, addr, hnet, hip, -⟩
      exact hmalformed net pre addr hnet hip
    exact iff_false_right hout

/-- An item that only has a value. -/
def valueItem (value : String) : List (Bytes × Json) := [(lit "value", .str (lit value))]

def visitor : User where
  id := 1
  username := lit "visitor"
  phone := []
  status := .active

/-- A location check without a country. -/
def visitFrom (ip : String) : EvalContext := (CheckRequest.location (lit ip) none).context visitor

theorem officeNetwork_strict :
    MatchesByCidr (locItem (.obj (valueItem "10.0.0.0/8"))) (visitFrom "10.1.2.3") ↔
      InNetwork false (lit "10.0.0.0/8") (lit "10.1.2.3") := by
  refine (cidrItem_strict_iff false rfl ?_ visitor (lit "10.1.2.3") none).mpr ?_
  · exact nofun
  · exact fun h => absurd h (by decide +kernel)

/-- The value "n/a" has no readable network and no readable prefix, so both are 0 and
every address matches it. -/
theorem notAvailable_matches_all :
    MatchesByCidr (locItem (.obj (valueItem "n/a"))) (visitFrom "203.0.113.9") ∧
    ∀ lz, ¬ InNetwork lz (lit "n/a") (lit "203.0.113.9") := by
  refine ⟨⟨rfl, by decide +kernel⟩, ?_⟩
  rintro lz ⟨net, pre, addr, hnet, -⟩
  have hnone : ipv4Cidr lz (lit "n/a") = none := by
    cases lz <;> decide +kernel
  rw [hnone] at hnet
  cases hnet

/-! ## §5 The documented lists -/

/-- A rule object of the documented form. -/
structure AllowedLists (lz : Bool) where
  ips : List Bytes
  countries : List Bytes
  ok : ∀ cidr ∈ ips, (ipv4Cidr lz cidr).isSome

def AllowedLists.json {lz : Bool} (r : AllowedLists lz) : Json :=
  .obj [(lit "allowed_ips", .arr (r.ips.map .str)),
    (lit "allowed_countries", .arr (r.countries.map .str))]

/-- The address lies in a listed network, or the country is listed. -/
def AllowedLists.Admits {lz : Bool} (r : AllowedLists lz) (ip country : Bytes) : Prop :=
  (∃ cidr ∈ r.ips, InNetwork lz cidr ip) ∨ country ∈ r.countries

/-- The rules compile and answer allow. -/
def LocAllows (V : Vendor) (rules : Bytes) (ctx : EvalContext) : Prop :=
  ∃ items, locCompile V rules = some items ∧ locEvaluate items ctx = (.ok, true)

theorem locCompile_json {V : Vendor} {rules : Bytes} {r : AllowedLists lz}
    (hread : V.yyjsonRead (cstr rules) = some r.json) :
    locCompile V rules = some (r.ips.map fun cidr => locItem (.str cidr)) := by
  have hlocations : ruleArray V rules (lit "locations") = none := by
    rw [ruleArray, hread]
    rfl
  have hips : ruleArray V rules (lit "allowed_ips") = some (r.ips.map .str) := by
    rw [ruleArray, hread]
    rfl
  rw [locCompile, hlocations, hips, Option.none_or, Option.map_some, List.map_map]
  rfl

/-- A listed string is compared with the address as a text, and an address has no slash. -/
theorem locMatches_listed {cidr : Bytes} (hcidr : (ipv4Cidr lz cidr).isSome)
    (hip : (ipv4 lz ip).isSome) (user : User) (country : Option Bytes) :
    locMatches ((CheckRequest.location ip country).context user) (locItem (.str cidr)) = false := by
  obtain ⟨⟨net, pre⟩, hnet⟩ := isSome_iff_exists.mp hcidr
  obtain ⟨addr, hip⟩ := isSome_iff_exists.mp hip
  have hslash : slash ∈ strlcpy 255 cidr := by
    rw [strlcpy_ipv4Cidr hnet]
    obtain ⟨n, p, rfl, -⟩ := ipv4Cidr_some hnet
    simp
  have hno : slash ∉ ip := not_mem_ipv4 hip rfl (by decide)
  show (_ == strlcpy 255 cidr) = false
  rw [sourceIp_location, strlcpy_ipv4 hip, beq_eq_false_iff_ne]
  exact fun heq => hno (heq ▸ hslash)

/-- **The documented lists** never match a well-formed address, so they mean what is
documented exactly where nothing is admitted. -/
theorem allowedLists_iff {V : Vendor} {rules : Bytes} {lz : Bool} (r : AllowedLists lz)
    (hread : V.yyjsonRead (cstr rules) = some r.json) {ip : Bytes} (hip : (ipv4 lz ip).isSome)
    (user : User) (country : Bytes) :
    (LocAllows V rules ((CheckRequest.location ip (some country)).context user) ↔
      r.Admits ip country) ↔ ¬ r.Admits ip country := by
  refine iff_false_left ?_
  rintro ⟨items, hitems, hallow⟩
  rw [locCompile_json hread] at hitems
  cases hitems
  have hnone : (r.ips.map fun cidr => locItem (.str cidr)).find?
      (locMatches ((location ip (some country)).context user)) = none := by
    refine find?_eq_none.mpr fun i hi => ?_
    obtain ⟨cidr, hcidr, rfl⟩ := mem_map.mp hi
    simp [locMatches_listed (r.ok cidr hcidr) hip user (some country)]
  rw [locEvaluate, firstMatch, hnone] at hallow
  split at hallow <;> cases hallow

/-- The lists of the module's documentation. -/
def corporateLists : AllowedLists false where
  ips := [lit "10.0.0.0/8", lit "192.168.1.0/24"]
  countries := [lit "US", lit "CA"]
  ok := by decide +kernel

def corporateVendor : Vendor := .ofTable [(lit "corporate", corporateLists.json)]

/-- A client from elsewhere is turned away, as documented. -/
theorem corporateLists_elsewhere :
    (LocAllows corporateVendor (lit "corporate")
        ((CheckRequest.location (lit "203.0.113.9") (some (lit "FR"))).context visitor) ↔
      corporateLists.Admits (lit "203.0.113.9") (lit "FR")) := by
  refine (allowedLists_iff corporateLists ?_ (by decide +kernel) visitor (lit "FR")).mpr ?_
  · rfl
  · rintro (⟨cidr, hcidr, net, pre, addr, hnet, haddr, hsame⟩ | hcountry)
    · have hout : ∀ cidr ∈ corporateLists.ips, (ipv4Cidr false cidr).all fun found =>
          (ipv4 false (lit "203.0.113.9")).all fun addr =>
            decide (¬ SamePrefix found.2 addr found.1) := by
        decide +kernel
      have hcidr' := hout cidr hcidr
      rw [hnet, haddr] at hcidr'
      exact of_decide_eq_true hcidr' hsame
    · exact absurd hcountry (by decide)

/-- A client of the first network, in a listed country, is not let in. -/
theorem corporateClient_refused :
    ¬ LocAllows corporateVendor (lit "corporate")
        ((CheckRequest.location (lit "10.1.2.3") (some (lit "US"))).context visitor) ∧
    (∃ cidr ∈ corporateLists.ips, InNetwork false cidr (lit "10.1.2.3")) ∧
    lit "US" ∈ corporateLists.countries := by
  refine ⟨?_, ⟨lit "10.0.0.0/8", mem_cons_self, ?_⟩, mem_cons_self⟩
  · rintro ⟨items, hitems, hallow⟩
    have hanswer : (locCompile corporateVendor (lit "corporate")).map
        (fun items => locEvaluate items
          ((location (lit "10.1.2.3") (some (lit "US"))).context visitor)) =
        some (.notFound, false) := by
      decide +kernel
    rw [hitems, map_some, hallow] at hanswer
    cases hanswer
  · exact ⟨addressOf 10 0 0 0, 8, addressOf 10 1 2 3, by decide +kernel⟩

end SsoSystem
