/-
SsoSystem.Lib.Cut — matching a pattern and a text that were both cut to a length.

A matcher is plain on some symbols if those stand for themselves. For such a
matcher a pattern of plain symbols that fits its buffer is compared correctly
however long the text is, and a plain beginning that fills the buffer never is
(`PlainMatcher.length_lt_of_cut`).
-/
import Mathlib.Data.List.Infix
import Mathlib.Tactic.Common

namespace SsoSystem.Pattern

open List

variable {α : Type} {n : Nat}

theorem take_eq_iff_of_length_lt {w q : List α} (hw : w.length < n) : q.take n = w ↔ q = w := by
  constructor
  · rintro rfl
    rw [length_take] at hw
    exact (take_of_length_le (by omega)).symm
  · rintro rfl
    exact take_of_length_le hw.le

theorem take_append_of_length_le {w s : List α} (hw : w.length ≤ n) :
    (w ++ s).take n = w ++ s.take (n - w.length) := by
  rw [take_append, take_of_length_le hw]

theorem take_append_of_fits {w s : List α} (h : w.length + s.length ≤ n) :
    (w ++ s).take n = w ++ s :=
  take_of_length_le (by rwa [length_append])

/-- A beginning that fits is found in the copy, with the copy of what follows it. -/
theorem exists_take_eq_append_iff {w q : List α} {P P' : List α → Prop}
    (hw : w.length ≤ n) (hP : ∀ t, P' (t.take (n - w.length)) ↔ P t) :
    (∃ t, q.take n = w ++ t ∧ P' t) ↔ ∃ t, q = w ++ t ∧ P t := by
  constructor
  · rintro ⟨t, heq, ht⟩
    have hcopy : q.take n <+: q := take_prefix n q
    obtain ⟨u, rfl⟩ : w <+: q := (heq ▸ prefix_append w t).trans hcopy
    rw [take_append_of_length_le hw] at heq
    obtain rfl := append_cancel_left heq
    exact ⟨u, rfl, (hP u).mp ht⟩
  · rintro ⟨t, rfl, ht⟩
    exact ⟨t.take (n - w.length), take_append_of_length_le hw, (hP t).mpr ht⟩

/-- The empty pattern stands for the empty text, a plain symbol for itself. -/
structure PlainMatcher (accepts : List α → List α → Bool) (plain : α → Prop) : Prop where
  nil_iff : ∀ {t}, accepts [] t = true ↔ t = []
  cons_iff : ∀ {c s q}, plain c → (accepts (c :: s) q = true ↔ ∃ t, q = c :: t ∧ accepts s t = true)

namespace PlainMatcher

variable {accepts : List α → List α → Bool} {plain : α → Prop} {m n : Nat} {w s q t : List α}

theorem append_iff (hM : PlainMatcher accepts plain) (hw : ∀ c ∈ w, plain c) :
    accepts (w ++ s) q = true ↔ ∃ t, q = w ++ t ∧ accepts s t = true := by
  induction w generalizing q with
  | nil => simp
  | cons c w ih =>
    rw [forall_mem_cons] at hw
    rw [cons_append, hM.cons_iff hw.1]
    constructor
    · rintro ⟨t, rfl, ht⟩
      obtain ⟨u, rfl, hu⟩ := (ih hw.2).mp ht
      exact ⟨u, rfl, hu⟩
    · rintro ⟨t, rfl, ht⟩
      exact ⟨w ++ t, rfl, (ih hw.2).mpr ⟨t, rfl, ht⟩⟩

theorem accepts_append (hM : PlainMatcher accepts plain) (hw : ∀ c ∈ w, plain c) :
    accepts (w ++ s) (w ++ t) = accepts s t := by
  rw [Bool.eq_iff_iff, hM.append_iff hw]
  constructor
  · rintro ⟨u, heq, hu⟩
    obtain rfl := append_cancel_left heq
    exact hu
  · exact fun h => ⟨t, rfl, h⟩

theorem plain_iff (hM : PlainMatcher accepts plain) (hw : ∀ c ∈ w, plain c) :
    accepts w q = true ↔ q = w := by
  have h := hM.append_iff (q := q) (s := []) hw
  rw [append_nil] at h
  rw [h]
  constructor
  · rintro ⟨t, rfl, ht⟩
    rw [hM.nil_iff.mp ht, append_nil]
  · rintro rfl
    exact ⟨[], (append_nil q).symm, hM.nil_iff.mpr rfl⟩

theorem accepts_cut (hM : PlainMatcher accepts plain) (hw : ∀ c ∈ w, plain c) (hlen : w.length ≤ m)
    (hmn : m < n) : accepts (w.take m) (q.take n) = accepts w q := by
  rw [take_of_length_le hlen, Bool.eq_iff_iff, hM.plain_iff hw, hM.plain_iff hw]
  exact take_eq_iff_of_length_lt (by omega)

/-- A plain beginning that fills the buffer of a longer pattern is not: what is left of the
pattern accepts that beginning and nothing longer. -/
theorem length_lt_of_cut (hM : PlainMatcher accepts plain) (hw : ∀ c ∈ w, plain c) (hmn : m < n)
    (hlong : m < (w ++ s).length) {x : α} (hx : accepts s [] = true → s ≠ [] → accepts s [x] = true)
    (hcut : ∀ q ∈ [w.take m, w.take m ++ [x]],
      accepts ((w ++ s).take m) (q.take n) = accepts (w ++ s) q) : w.length < m := by
  by_contra hle
  rw [not_lt] at hle
  have hpat : (w ++ s).take m = w.take m := take_append_of_le_length hle
  have hplain : ∀ c ∈ w.take m, plain c := fun c hc => hw c (mem_of_mem_take hc)
  have hvlen : (w.take m).length = m := by rw [length_take]; omega
  -- the cut pattern accepts itself, so the whole one does
  have hself : accepts (w ++ s) (w.take m) = true := by
    rw [← hcut _ mem_cons_self, hpat, hM.plain_iff hplain, take_eq_iff_of_length_lt (by omega)]
  obtain ⟨t, heq, ht⟩ := (hM.append_iff hw).mp hself
  have hlens := congrArg List.length heq
  rw [hvlen, length_append] at hlens
  obtain rfl : t = [] := eq_nil_of_length_eq_zero (by omega)
  have hs : s ≠ [] := by
    rintro rfl
    rw [append_nil] at hlong
    exact absurd hlong (by simp at hlens; omega)
  -- one symbol more is refused by the cut pattern only
  have hmore := hcut _ (mem_cons_of_mem _ mem_cons_self)
  rw [append_nil] at heq
  rw [hpat, heq, hM.accepts_append hw, hx ht hs, hM.plain_iff hw] at hmore
  have hlast := congrArg List.length hmore
  rw [length_take, length_append, length_singleton] at hlast
  rw [heq] at hvlen
  omega

end PlainMatcher

end SsoSystem.Pattern
