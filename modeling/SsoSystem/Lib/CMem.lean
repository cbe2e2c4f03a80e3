/-
SsoSystem.Lib.CMem — byte texts, C strings and flat memory blocks.

A C string is whatever stands before the first NUL, so every function
here that takes a text looks at `cstr` of it and no caller has to promise
that its text is NUL free. A `Block` is a run of memory addressed by
offset; a C union is one block read at several offsets, which is how one
member's bytes are seen through another member.
-/
import Mathlib.Data.List.TakeWhile
import Mathlib.Tactic.Common
import Mathlib.Tactic.Ring

namespace SsoSystem.CMem

open List Option Nat

abbrev Bytes := List UInt8

instance : LawfulBEq Bytes := inferInstance

/-- The bytes of an ASCII literal. -/
def lit (s : String) : Bytes := s.toList.map fun c => UInt8.ofNat c.toNat

variable {s : Bytes} {c : UInt8}

/-- A property of all bytes of a concrete text, in the form `decide` computes. -/
theorem forall_of_all {p : UInt8 → Prop} [DecidablePred p]
    (h : s.all (fun b => decide (p b)) = true) : ∀ b ∈ s, p b := by
  simpa using h

/-! ## §1 C strings -/

/-- What C sees of a text: the bytes before the first NUL. -/
def cstr (s : Bytes) : Bytes := s.takeWhile (· ≠ 0)

theorem not_mem_cstr (s : Bytes) : (0 : UInt8) ∉ cstr s := by
  intro h
  have h0 := mem_takeWhile_imp h
  simp at h0

theorem cstr_eq_self (h : (0 : UInt8) ∉ s) : cstr s = s := by
  rw [cstr, takeWhile_eq_self_iff]
  intro b hb
  simp only [ne_eq, decide_not, Bool.not_eq_eq_eq_not, Bool.not_true, decide_eq_false_iff_not]
  rintro rfl
  exact h hb

theorem cstr_append_zero (s t : Bytes) : cstr (s ++ 0 :: t) = cstr s := by
  induction s with
  | nil => rfl
  | cons b s ih =>
    unfold cstr at ih ⊢
    rw [cons_append, takeWhile_cons, takeWhile_cons, ih]

@[simp] theorem cstr_cstr (s : Bytes) : cstr (cstr s) = cstr s :=
  cstr_eq_self (not_mem_cstr s)

/-- The C string a bounded copy into a buffer of `size` bytes leaves there:
at most `size - 1` bytes, NUL terminated. -/
def strlcpy (size : Nat) (s : Bytes) : Bytes := (cstr s).take (size - 1)

theorem not_mem_strlcpy (size : Nat) (s : Bytes) : (0 : UInt8) ∉ strlcpy size s :=
  fun h => not_mem_cstr s (mem_of_mem_take h)

theorem length_strlcpy_le (size : Nat) (s : Bytes) : (strlcpy size s).length ≤ size - 1 := by
  simp only [strlcpy, length_take]
  omega

theorem strlcpy_eq_self {size : Nat} (h0 : (0 : UInt8) ∉ s) (hlen : s.length < size) :
    strlcpy size s = s := by
  rw [strlcpy, cstr_eq_self h0]
  exact take_of_length_le (by omega)

theorem bne_of_not_mem {a : Bytes} (ha : c ∉ a) : ∀ b ∈ a, (b != c) = true := by
  intro b hb
  rw [bne_iff_ne]
  rintro rfl
  exact ha hb

/-- `strchr`: a text is cut at the first `c`. -/
theorem takeWhile_ne {a r : Bytes} (ha : c ∉ a) :
    (a ++ c :: r).takeWhile (· != c) = a ∧ (a ++ c :: r).dropWhile (· != c) = c :: r := by
  have hall := bne_of_not_mem ha
  rw [takeWhile_append_of_pos hall, dropWhile_append_of_pos hall]
  simp

theorem takeWhile_ne_self {a : Bytes} (ha : c ∉ a) :
    a.takeWhile (· != c) = a ∧ a.dropWhile (· != c) = [] := by
  have hall := bne_of_not_mem ha
  exact ⟨takeWhile_eq_self_iff.mpr hall, dropWhile_eq_nil_iff.mpr hall⟩

theorem not_mem_takeWhile_ne (c : UInt8) (a : Bytes) : c ∉ a.takeWhile (· != c) := by
  intro h
  simpa using mem_takeWhile_imp h

/-- `strstr`: the text before the first occurrence of `pat`, and the text from there on. -/
def strstr (pat : Bytes) : Bytes → Option (Bytes × Bytes)
  | [] => if pat = [] then some ([], []) else none
  | b :: s =>
    if pat.isPrefixOf (b :: s) then some ([], b :: s)
    else (strstr pat s).map fun r => (b :: r.1, r.2)

theorem strstr_some {pat s : Bytes} {r : Bytes × Bytes} (h : strstr pat s = some r) :
    s = r.1 ++ r.2 ∧ pat <+: r.2 := by
  induction s generalizing r with
  | nil =>
    by_cases hp : pat = []
    · simp only [strstr, hp, if_true, some.injEq] at h
      subst h
      simp [hp]
    · simp [strstr, hp] at h
  | cons b s ih =>
    by_cases hp : pat.isPrefixOf (b :: s) = true
    · simp only [strstr, hp, if_true, some.injEq] at h
      subst h
      exact ⟨rfl, by simpa using hp⟩
    · rw [strstr, if_neg hp, map_eq_some_iff] at h
      obtain ⟨q, hq, rfl⟩ := h
      obtain ⟨hs, hpre⟩ := ih hq
      exact ⟨by rw [hs]; rfl, hpre⟩

/-! ## §2 Blocks -/

/-- A run of memory by byte offset. -/
abbrev Block := Nat → UInt8

namespace Block

/-- `memset(_, 0, _)`. -/
def zero : Block := fun _ => 0

/-- The C string that starts at `off`, reading at most `n` bytes. -/
def cstrFrom (m : Block) : Nat → Nat → Bytes
  | _, 0 => []
  | off, n + 1 => if m off = 0 then [] else m off :: cstrFrom m (off + 1) n

/-- Bounded copy into the `size` bytes at `off`; like `strncpy` it pads with NULs. -/
def strlcpy (m : Block) (off size : Nat) (s : Bytes) : Block := fun i =>
  if off ≤ i ∧ i < off + size then (CMem.strlcpy size s)[i - off]?.getD 0 else m i

/-- The little-endian number in the `n` bytes at `off`. -/
def leNat (m : Block) : Nat → Nat → Nat
  | _, 0 => 0
  | off, n + 1 => (m off).toNat + 256 * leNat m (off + 1) n

/-- Stores a number little-endian in the `n` bytes at `off`. -/
def putLe (m : Block) (off n v : Nat) : Block := fun i =>
  if off ≤ i ∧ i < off + n then UInt8.ofNat (v / 256 ^ (i - off)) else m i

/-! ### String reads -/

variable {m m' : Block} {off size i n : Nat} {s : Bytes}

/-- A string read does not see past the first NUL. -/
theorem cstrFrom_congr {k : Nat} (hz : m k = 0) : ∀ {off n : Nat}, off ≤ k →
    (∀ i, off ≤ i → i ≤ k → m i = m' i) → m.cstrFrom off n = m'.cstrFrom off n
  | _, 0, _, _ => rfl
  | off, n + 1, hk, h => by
    have hoff := h off (le_refl _) hk
    simp only [cstrFrom, ← hoff]
    split
    · rfl
    · next hne =>
      have hlt : off ≠ k := fun he => hne (he ▸ hz)
      rw [cstrFrom_congr hz (by omega) fun i hi hik => h i (by omega) hik]

/-- Two blocks that agree on the bytes a read may visit give the same string. -/
theorem cstrFrom_congr_range : ∀ {off n : Nat},
    (∀ i, off ≤ i → i < off + n → m i = m' i) → m.cstrFrom off n = m'.cstrFrom off n
  | _, 0, _ => rfl
  | off, n + 1, h => by
    have hoff := h off (le_refl _) (by omega)
    simp only [cstrFrom, ← hoff]
    split
    · rfl
    · rw [cstrFrom_congr_range fun i hi hik => h i (by omega) (by omega)]

/-- A read that stops before its bound stopped at a NUL. -/
theorem eq_zero_of_length_cstrFrom_lt : ∀ {off n : Nat},
    (m.cstrFrom off n).length < n → m (off + (m.cstrFrom off n).length) = 0
  | _, 0, h => absurd h (Nat.not_lt_zero _)
  | off, n + 1, h => by
    rw [cstrFrom] at h ⊢
    split
    · next hz => simpa using hz
    · next hne =>
      simp only [hne, if_false, List.length_cons, Nat.add_lt_add_iff_right] at h
      have ih := eq_zero_of_length_cstrFrom_lt h
      simpa [add_assoc, add_comm 1] using ih

/-- A block that spells out a NUL-free text followed by a NUL is read as that text. -/
theorem cstrFrom_eq_of_spells : ∀ {s : Bytes} {off n : Nat}, (0 : UInt8) ∉ s →
    s.length < n → (∀ i, i ≤ s.length → m (off + i) = s[i]?.getD 0) → m.cstrFrom off n = s
  | [], off, n + 1, _, _, h => by
    have h0 : m off = 0 := by simpa using h 0 (le_refl _)
    simp [cstrFrom, h0]
  | b :: s, off, n + 1, hnul, hlen, h => by
    have hb : m off = b := by simpa using h 0 (zero_le _)
    have hb0 : b ≠ 0 := fun he => hnul (by simp [he])
    have hs : (0 : UInt8) ∉ s := fun hm => hnul (mem_cons_of_mem _ hm)
    have htail : m.cstrFrom (off + 1) n = s := by
      refine cstrFrom_eq_of_spells hs (by simpa using hlen) fun i hi => ?_
      have hi' := h (i + 1) (by simpa using hi)
      simpa [add_assoc, add_comm 1] using hi'
    simp [cstrFrom, hb, hb0, htail]

/-! ### Bounded copies -/

theorem strlcpy_apply_of_mem (h1 : off ≤ i) (h2 : i < off + size) :
    m.strlcpy off size s i = (CMem.strlcpy size s)[i - off]?.getD 0 := by
  simp [strlcpy, h1, h2]

theorem strlcpy_apply_of_not_mem (h : i < off ∨ off + size ≤ i) : m.strlcpy off size s i = m i := by
  rw [strlcpy, if_neg (by omega)]

/-- A bounded copy is read back as the truncated text. -/
theorem cstrFrom_strlcpy (hpos : 0 < size) (hn : size ≤ n) :
    (m.strlcpy off size s).cstrFrom off n = CMem.strlcpy size s := by
  have hlen := length_strlcpy_le size s
  refine cstrFrom_eq_of_spells (not_mem_strlcpy size s) (by omega) fun i hi => ?_
  rw [strlcpy_apply_of_mem (by omega) (by omega), Nat.add_sub_cancel_left]

/-- A copy behind its end does not disturb it. -/
theorem cstrFrom_strlcpy_strlcpy {off' size' : Nat} {s' : Bytes} (hpos : 0 < size) (hn : size ≤ n)
    (hoff : off + size ≤ off') :
    ((m.strlcpy off size s).strlcpy off' size' s').cstrFrom off n = CMem.strlcpy size s := by
  have hend : (m.strlcpy off size s) (off + (size - 1)) = 0 := by
    have hlen := length_strlcpy_le size s
    rw [strlcpy_apply_of_mem (by omega) (by omega), getElem?_eq_none (by omega)]
    rfl
  rw [← cstrFrom_strlcpy hpos hn (m := m)]
  refine (cstrFrom_congr hend (by omega) fun i _ hi => ?_).symm
  exact (strlcpy_apply_of_not_mem (.inl (by omega))).symm

/-! ### Little-endian numbers -/

theorem leNat_congr : ∀ {off n : Nat},
    (∀ i, off ≤ i → i < off + n → m i = m' i) → m.leNat off n = m'.leNat off n
  | _, 0, _ => rfl
  | off, n + 1, h => by
    rw [leNat, leNat, h off (Nat.le_refl _) (by omega),
      leNat_congr fun i hi hik => h i (by omega) (by omega)]

theorem leNat_eq_zero_iff : ∀ {off n : Nat},
    m.leNat off n = 0 ↔ ∀ i, i < n → m (off + i) = 0
  | _, 0 => by simp [leNat]
  | off, n + 1 => by
    have hb : (m off).toNat = 0 ↔ m off = 0 := by
      rw [← UInt8.toNat_inj]; rfl
    rw [leNat, Nat.add_eq_zero_iff, Nat.mul_eq_zero, hb, leNat_eq_zero_iff]
    constructor
    · rintro ⟨h0, h | h⟩ i hi
      · omega
      · cases i with
        | zero => exact h0
        | succ j => simpa [Nat.add_assoc, Nat.add_comm 1] using h j (by omega)
    · intro h
      refine ⟨by simpa using h 0 (by omega), Or.inr fun i hi => ?_⟩
      simpa [Nat.add_assoc, Nat.add_comm 1] using h (i + 1) (by omega)

/-- A number below `256 ^ n` leaves the byte at position `n` zero. -/
theorem eq_zero_of_leNat_lt : ∀ {off n : Nat},
    m.leNat off (n + 1) < 256 ^ n → m (off + n) = 0
  | off, 0, h => by
    have h0 : (m off).toNat = 0 := by simpa [leNat] using h
    exact UInt8.toNat_inj.mp h0
  | off, n + 1, h => by
    rw [leNat, pow_succ] at h
    have ih : m (off + 1 + n) = 0 := eq_zero_of_leNat_lt (by omega)
    simpa [add_assoc, add_comm 1] using ih

theorem putLe_apply_of_not_mem {v : Nat} (h : i < off ∨ off + n ≤ i) : m.putLe off n v i = m i := by
  rw [putLe, if_neg (by omega)]

end Block

end SsoSystem.CMem
