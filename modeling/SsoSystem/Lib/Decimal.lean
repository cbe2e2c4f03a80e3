/-
SsoSystem.Lib.Decimal — numbers as decimal texts, and C's `strtoull`.

`decimal` is what `"%llu"` prints and `strtoull` reads the longest run of
digits back, clamped to 64 bits. A number never prints longer than the digits it
was read from (`length_decimal_strtoull_le`), so a cut text cannot give a
longer number back.
-/
import Mathlib.Data.List.Induction
import SsoSystem.Lib.CMem

namespace SsoSystem.Decimal

open CMem List

/-- `'0' <= c && c <= '9'`. -/
def isDigit (b : UInt8) : Bool := 48 ≤ b.toNat && b.toNat ≤ 57

/-- The decimal text of a number. -/
def decimal (n : Nat) : Bytes := (Nat.toDigits 10 n).map fun c => UInt8.ofNat c.toNat

/-- The number a run of digits spells. -/
def value (ds : Bytes) : Nat := ds.foldl (fun v b => 10 * v + (b.toNat - 48)) 0

/-- `strtoull(p, &p, 10)` on a text that starts with a digit: the number, clamped
to `ULLONG_MAX`, and the text behind its digits. -/
def strtoull (p : Bytes) : UInt64 × Bytes :=
  (UInt64.ofNat (min (value (p.takeWhile isDigit)) (2 ^ 64 - 1)), p.dropWhile isDigit)

/-- `"%lld"`. -/
def signedDecimal (n : Int) : Bytes :=
  if n < 0 then 45 :: decimal n.natAbs else decimal n.natAbs

/-- `isspace`. -/
def isBlank (b : UInt8) : Bool := b == 32 || (9 ≤ b.toNat && b.toNat ≤ 13)

/-- `atoll`, which is `strtoll`: blanks, a sign and digits, clamped to 64 bits. -/
def atoll (s : Bytes) : Int :=
  match s.dropWhile isBlank with
  | 45 :: r => -(min (value (r.takeWhile isDigit)) (2 ^ 63) : Nat)
  | 43 :: r => (min (value (r.takeWhile isDigit)) (2 ^ 63 - 1) : Nat)
  | r => (min (value (r.takeWhile isDigit)) (2 ^ 63 - 1) : Nat)

/-- The text does not go on with a digit. -/
def NoDigitHead (p : Bytes) : Prop := ∀ b ∈ p.head?, isDigit b = false

theorem noDigitHead_nil : NoDigitHead [] := by
  simp [NoDigitHead]

variable {b : UInt8} {p ds : Bytes} {n : Int}

theorem noDigitHead_cons (h : isDigit b = false) : NoDigitHead (b :: p) := by
  simpa [NoDigitHead] using h

/-! ## §1 Printing -/

/-- Printing peels off the last digit; every proof below goes through this equation. -/
theorem decimal_eq (n : Nat) : decimal n =
    if n < 10 then [UInt8.ofNat (48 + n)] else decimal (n / 10) ++ [UInt8.ofNat (48 + n % 10)] := by
  have hdigit : ∀ d < 10, UInt8.ofNat (Nat.digitChar d).toNat = UInt8.ofNat (48 + d) := by decide
  rw [decimal, Nat.toDigits_eq_if (by decide)]
  split
  · next h => rw [map_singleton, hdigit n h]
  · rw [map_append, map_singleton, hdigit _ (Nat.mod_lt _ (by decide)), decimal]

theorem decimal_ne_nil (n : Nat) : decimal n ≠ [] := by
  rw [decimal_eq]
  split <;> simp

theorem isDigit_ofNat {d : Nat} (h : d < 10) : isDigit (UInt8.ofNat (48 + d)) = true := by
  have hall : ∀ d < 10, isDigit (UInt8.ofNat (48 + d)) = true := by decide
  exact hall d h

theorem isDigit_of_mem_decimal (n : Nat) : ∀ b ∈ decimal n, isDigit b = true := by
  induction n using Nat.strong_induction_on with
  | _ n ih =>
    intro b hb
    rw [decimal_eq] at hb
    split at hb
    · next h =>
      rw [mem_singleton] at hb
      exact hb ▸ isDigit_ofNat h
    · next h =>
      rcases mem_append.mp hb with hb | hb
      · exact ih (n / 10) (by omega) b hb
      · rw [mem_singleton] at hb
        exact hb ▸ isDigit_ofNat (Nat.mod_lt _ (by decide))

/-- A number below `10 ^ k` prints in at most `k` digits. -/
theorem length_decimal_le {n k : Nat} (hk : 0 < k) (h : n < 10 ^ k) : (decimal n).length ≤ k := by
  rw [decimal, length_map]
  exact (Nat.length_toDigits_le_iff (by decide) hk).mpr h

theorem length_decimal_toNat_le (n : UInt64) : (decimal n.toNat).length ≤ 20 := by
  have hn : n.toNat < 2 ^ 64 := n.toNat_lt
  exact length_decimal_le (by decide) (by omega)

/-! ## §2 Reading -/

theorem value_append_singleton (ds : Bytes) (b : UInt8) :
    value (ds ++ [b]) = 10 * value ds + (b.toNat - 48) := by
  simp [value, foldl_append]

theorem value_decimal (n : Nat) : value (decimal n) = n := by
  have hdigit : ∀ d < 10, (UInt8.ofNat (48 + d)).toNat - 48 = d := by decide
  induction n using Nat.strong_induction_on with
  | _ n ih =>
    rw [decimal_eq]
    split
    · next h => simpa [value] using hdigit n h
    · next h =>
      rw [value_append_singleton, ih (n / 10) (by omega), hdigit _ (Nat.mod_lt _ (by decide))]
      omega

theorem value_lt (hds : ∀ b ∈ ds, isDigit b = true) : value ds < 10 ^ ds.length := by
  induction ds using reverseRecOn with
  | nil => simp [value]
  | append_singleton ds b ih =>
    have hb : isDigit b = true := hds b (by simp)
    have hlt := ih fun c hc => hds c (by simp [hc])
    simp only [isDigit, Bool.and_eq_true, decide_eq_true_eq] at hb
    rw [value_append_singleton, length_append, length_singleton, pow_succ]
    omega

/-- A digit run that is not followed by a digit is what a number reader takes. -/
theorem takeWhile_digits_append (hds : ∀ b ∈ ds, isDigit b = true)
    (hp : NoDigitHead p) : (ds ++ p).takeWhile isDigit = ds ∧ (ds ++ p).dropWhile isDigit = p := by
  rw [takeWhile_append_of_pos hds, dropWhile_append_of_pos hds]
  cases p with
  | nil => simp
  | cons b p =>
    have hb : isDigit b = false := hp b (by simp)
    simp [hb]

theorem ofNat_min_toNat (n : UInt64) : UInt64.ofNat (min n.toNat (2 ^ 64 - 1)) = n := by
  have hn : n.toNat < 2 ^ 64 := n.toNat_lt
  rw [Nat.min_eq_left (by omega), UInt64.ofNat_toNat]

/-- What was printed is read back, and the text behind it is left alone. -/
theorem strtoull_decimal (n : UInt64) (hp : NoDigitHead p) :
    strtoull (decimal n.toNat ++ p) = (n, p) := by
  obtain ⟨htake, hdrop⟩ := takeWhile_digits_append (isDigit_of_mem_decimal n.toNat) hp
  rw [strtoull, htake, hdrop, value_decimal, ofNat_min_toNat]

theorem length_decimal_strtoull_le (hne : p.takeWhile isDigit ≠ []) :
    (decimal (strtoull p).1.toNat).length ≤ (p.takeWhile isDigit).length := by
  have hlt : value (p.takeWhile isDigit) < 10 ^ (p.takeWhile isDigit).length :=
    value_lt fun b hb => mem_takeWhile_imp hb
  refine length_decimal_le (length_pos_iff.mpr hne) ?_
  have hclamp : (strtoull p).1.toNat ≤ value (p.takeWhile isDigit) := by
    rw [strtoull, UInt64.toNat_ofNat', Nat.mod_eq_of_lt (by omega)]
    omega
  omega

theorem length_strtoull_add (p : Bytes) :
    (p.takeWhile isDigit).length + (strtoull p).2.length = p.length := by
  have h := congrArg List.length (takeWhile_append_dropWhile (p := isDigit) (l := p))
  rwa [length_append] at h

/-! ## §3 Signed numbers -/

theorem isBlank_of_isDigit (h : isDigit b = true) : isBlank b = false := by
  simp only [isDigit, Bool.and_eq_true, decide_eq_true_eq] at h
  simp only [isBlank, Bool.or_eq_false_iff, Bool.and_eq_false_iff, decide_eq_false_iff_not,
    beq_eq_false_iff_ne, ne_eq]
  refine ⟨?_, by omega⟩
  rintro rfl
  exact absurd h.1 (by decide)

theorem atoll_of_digits (hds : ∀ b ∈ ds, isDigit b = true) :
    atoll ds = (min (value ds) (2 ^ 63 - 1) : Nat) := by
  cases ds with
  | nil => rfl
  | cons d ds =>
    have hd : isDigit d = true := hds d mem_cons_self
    rw [atoll, dropWhile_cons_of_neg (by simp [isBlank_of_isDigit hd])]
    -- the first byte is a digit, so neither sign matches
    split
    · next h =>
      cases h
      exact absurd hd (by decide)
    · next h =>
      cases h
      exact absurd hd (by decide)
    · rw [takeWhile_eq_self_iff.mpr hds]

theorem atoll_neg_digits (hds : ∀ b ∈ ds, isDigit b = true) :
    atoll (45 :: ds) = -(min (value ds) (2 ^ 63) : Nat) := by
  rw [atoll, dropWhile_cons_of_neg (by decide)]
  simp only [takeWhile_eq_self_iff.mpr hds]

theorem atoll_signedDecimal (hlo : -2 ^ 63 ≤ n) (hhi : n < 2 ^ 63) :
    atoll (signedDecimal n) = n := by
  rw [signedDecimal]
  split
  · rw [atoll_neg_digits (isDigit_of_mem_decimal _), value_decimal]
    omega
  · rw [atoll_of_digits (isDigit_of_mem_decimal _), value_decimal]
    omega

theorem le_of_lt_length_decimal {n k : Nat} (hk : 0 < k) (h : k < (decimal n).length) :
    10 ^ k ≤ n := by
  by_contra hlt
  have := length_decimal_le hk (Nat.lt_of_not_le hlt)
  omega

theorem value_take_lt (n k : Nat) : value ((decimal n).take k) < 10 ^ k := by
  have hds : ∀ b ∈ (decimal n).take k, isDigit b = true := fun b hb =>
    isDigit_of_mem_decimal n b (mem_of_mem_take hb)
  refine Nat.lt_of_lt_of_le (value_lt hds) (Nat.pow_le_pow_right (by decide) ?_)
  rw [length_take]
  omega

/-- The text of a number, cut: the digits of a smaller number with the same sign. -/
theorem atoll_take {k : Nat} (hk : 1 < k) (hlen : k < (signedDecimal n).length) :
    ∃ m : Nat, m < n.natAbs ∧
      atoll ((signedDecimal n).take k) =
        if n < 0 then -((min m (2 ^ 63) : Nat) : Int) else ((min m (2 ^ 63 - 1) : Nat) : Int) := by
  have hdigits : ∀ j, ∀ b ∈ (decimal n.natAbs).take j, isDigit b = true := fun j b hb =>
    isDigit_of_mem_decimal _ b (mem_of_mem_take hb)
  rw [signedDecimal] at hlen ⊢
  by_cases hneg : n < 0
  · rw [if_pos hneg, length_cons] at hlen
    obtain ⟨j, rfl⟩ : ∃ j, k = j + 1 := ⟨k - 1, by omega⟩
    have hle := le_of_lt_length_decimal (by omega) (by omega : j < (decimal n.natAbs).length)
    refine ⟨value ((decimal n.natAbs).take j), (value_take_lt _ j).trans_le hle, ?_⟩
    rw [if_pos hneg, if_pos hneg, take_succ_cons, atoll_neg_digits (hdigits j)]
  · rw [if_neg hneg] at hlen
    have hle := le_of_lt_length_decimal (by omega) hlen
    refine ⟨value ((decimal n.natAbs).take k), (value_take_lt _ k).trans_le hle, ?_⟩
    rw [if_neg hneg, if_neg hneg, atoll_of_digits (hdigits k)]

theorem mem_signedDecimal (h : b ∈ signedDecimal n) : isDigit b = true ∨ b = 45 := by
  rw [signedDecimal] at h
  split at h
  · rcases mem_cons.mp h with rfl | h
    · exact Or.inr rfl
    · exact Or.inl (isDigit_of_mem_decimal _ b h)
  · exact Or.inl (isDigit_of_mem_decimal _ b h)

theorem signedDecimal_ne_nil (n : Int) : signedDecimal n ≠ [] := by
  rw [signedDecimal]
  split
  · exact cons_ne_nil _ _
  · exact decimal_ne_nil _

end SsoSystem.Decimal
