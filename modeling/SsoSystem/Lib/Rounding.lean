/-
SsoSystem.Lib.Rounding — rounding to a number of significant digits.

`roundDigits b p` rounds a natural number to `p` significant digits in base
`b`, to the nearest and ties to even: with `b = 2`, `p = 53` it is the
conversion to `double`, with `b = 10`, `p = 6` it is what `"%g"` keeps. All
that comparisons need is that it is monotone (`roundDigits_mono`), on the
integers too (`onInt_mono`).
-/
import Mathlib.Data.Nat.Log
import Mathlib.Tactic.Ring

namespace SsoSystem.Rounding

open Nat

variable {b p d k m n : Nat}

/-- `n / d` to the nearest integer, ties to the even one. -/
def roundEven (n d : Nat) : Nat :=
  if 2 * (n % d) < d ∨ (2 * (n % d) = d ∧ n / d % 2 = 0) then n / d else n / d + 1

theorem roundEven_bounds (n d : Nat) : n / d ≤ roundEven n d ∧ roundEven n d ≤ n / d + 1 := by
  unfold roundEven
  split <;> omega

theorem le_roundEven (hd : 0 < d) (h : k * d ≤ n) : k ≤ roundEven n d :=
  ((le_div_iff_mul_le hd).mpr h).trans (roundEven_bounds n d).1

theorem roundEven_le (hd : 0 < d) (h : n ≤ k * d) : roundEven n d ≤ k := by
  rcases (Nat.div_le_of_le_mul (Nat.mul_comm k d ▸ h)).lt_or_eq with hlt | heq
  · exact (roundEven_bounds n d).2.trans hlt
  · have hmod : n % d = 0 := by
      have hdiv := Nat.div_add_mod n d
      rw [heq, Nat.mul_comm] at hdiv
      omega
    rw [roundEven, if_pos (.inl (by omega)), heq]

theorem roundEven_mono (h : m ≤ n) : roundEven m d ≤ roundEven n d := by
  rcases (Nat.div_le_div_right h : m / d ≤ n / d).lt_or_eq with hlt | heq
  · exact (roundEven_bounds m d).2.trans ((Nat.succ_le_of_lt hlt).trans (roundEven_bounds n d).1)
  · -- the same quotient: the larger remainder is rounded up if the smaller one is
    have hm := Nat.div_add_mod m d
    have hn := Nat.div_add_mod n d
    rw [heq] at hm
    unfold roundEven
    rw [heq]
    split <;> split <;> omega

/-- The unit of the last of `p` digits. -/
def unit (b p n : Nat) : Nat := b ^ (Nat.log b n + 1 - p)

/-- `n` to `p` significant digits. -/
def roundDigits (b p n : Nat) : Nat := roundEven n (unit b p n) * unit b p n

theorem unit_pos (hb : 1 < b) : 0 < unit b p n := Nat.pow_pos (by omega)

theorem unit_dvd (hp : 0 < p) : unit b p n ∣ b ^ Nat.log b n :=
  pow_dvd_pow b (by omega)

/-- A number and its rounding lie between the same powers. -/
theorem roundDigits_le (hb : 1 < b) (hp : 0 < p) (n : Nat) : roundDigits b p n ≤
    b ^ (Nat.log b n + 1) := by
  obtain ⟨k, hk⟩ : unit b p n ∣ b ^ (log b n + 1) := (unit_dvd hp).trans (pow_dvd_pow b (by omega))
  have hlt : n < b ^ (log b n + 1) := lt_pow_succ_log_self hb n
  rw [hk, mul_comm] at hlt ⊢
  exact mul_le_mul_right _ (roundEven_le (unit_pos hb) hlt.le)

theorem le_roundDigits (hb : 1 < b) (hp : 0 < p) (hn : n ≠ 0) : b ^ Nat.log b n ≤
    roundDigits b p n := by
  obtain ⟨k, hk⟩ : unit b p n ∣ b ^ log b n := unit_dvd hp
  have hle : b ^ log b n ≤ n := pow_log_le_self b hn
  rw [hk, mul_comm] at hle ⊢
  exact mul_le_mul_right _ (le_roundEven (unit_pos hb) hle)

theorem roundDigits_mono (hb : 1 < b) (hp : 0 < p) : Monotone (roundDigits b p) := by
  intro m n hmn
  rcases (Nat.log_mono_right hmn : Nat.log b m ≤ Nat.log b n).lt_or_eq with hlt | heq
  · have hn : n ≠ 0 := by
      rintro rfl
      simp at hlt
    calc roundDigits b p m ≤ b ^ (Nat.log b m + 1) := roundDigits_le hb hp m
      _ ≤ b ^ Nat.log b n := Nat.pow_le_pow_right (by omega) hlt
      _ ≤ roundDigits b p n := le_roundDigits hb hp hn
  · have hunit : unit b p m = unit b p n := by rw [unit, unit, heq]
    rw [roundDigits, roundDigits, hunit]
    exact Nat.mul_le_mul_right _ (roundEven_mono hmn)

/-- A rounding of magnitudes, on the integers. -/
def onInt (f : Nat → Nat) (n : Int) : Int := if n < 0 then -(f n.natAbs : Int) else f n.natAbs

theorem natAbs_onInt (f : Nat → Nat) (n : Int) : (onInt f n).natAbs = f n.natAbs := by
  unfold onInt
  split <;> omega

theorem onInt_mono {f : Nat → Nat} (hf : Monotone f) {m n : Int} (hmn : m ≤ n) :
    onInt f m ≤ onInt f n := by
  unfold onInt
  split <;> split
  · have : f n.natAbs ≤ f m.natAbs := hf (by omega)
    omega
  · omega
  · omega
  · have : f m.natAbs ≤ f n.natAbs := hf (by omega)
    omega

end SsoSystem.Rounding
