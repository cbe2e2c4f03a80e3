/-
SsoSystem.Lib.Loop — `while` loops that carry their own termination proof.

A loop body either ends the loop with a result or gives the next state, and
every next state is smaller. The loop runs on fuel taken from the size of its
state, so it computes; `While.run_eq` is the only equation its users need,
and `While.run_induct` the only induction.
-/
import Mathlib.Tactic.Common

namespace SsoSystem.Loop

open Option

variable {σ ρ : Type}

/-- A loop over states `σ` with result `ρ`. -/
structure While (σ ρ : Type) where
  body : σ → ρ ⊕ σ
  size : σ → Nat
  decreases : ∀ {s s' : σ}, body s = .inr s' → size s' < size s

namespace While

/-- At most `n` rounds; `none` when they were not enough. -/
def rounds (w : While σ ρ) : Nat → σ → Option ρ
  | 0, _ => none
  | n + 1, s =>
    match w.body s with
    | .inl r => some r
    | .inr s' => w.rounds n s'

variable (w : While σ ρ) (n : Nat) (s : σ)

theorem rounds_isSome (h : w.size s < n) : (w.rounds n s).isSome := by
  induction n generalizing s with
  | zero => omega
  | succ n ih =>
    rw [rounds]
    cases hb : w.body s with
    | inl r => rfl
    | inr s' =>
      have hlt := w.decreases hb
      exact ih s' (by omega)

/-- The result of the loop. -/
def run : ρ :=
  (w.rounds (w.size s + 1) s).get (w.rounds_isSome _ s (Nat.lt_succ_self _))

theorem rounds_eq_run (h : w.size s < n) : w.rounds n s = some (w.run s) := by
  have key : ∀ m n s, w.size s < m → m ≤ n → w.rounds n s = w.rounds m s := by
    intro m
    induction m with
    | zero => intro n s h _; omega
    | succ m ih =>
      intro n s h hmn
      obtain ⟨n, rfl⟩ : ∃ k, n = k + 1 := ⟨n - 1, by omega⟩
      rw [rounds, rounds]
      cases hb : w.body s with
      | inl r => rfl
      | inr s' =>
        have hlt := w.decreases hb
        exact ih n s' (by omega) (by omega)
  rw [key (w.size s + 1) n s (Nat.lt_succ_self _) (by omega), run, some_get]

theorem run_eq :
    w.run s = match w.body s with
      | .inl r => r
      | .inr s' => w.run s' := by
  have h := w.rounds_eq_run (w.size s + 1) s (Nat.lt_succ_self _)
  rw [rounds] at h
  cases hb : w.body s with
  | inl r =>
    rw [hb] at h
    exact (some.inj h).symm
  | inr s' =>
    have hlt := w.decreases hb
    rw [hb] at h
    dsimp only at h
    rw [rounds_eq_run w _ s' hlt] at h
    exact (some.inj h).symm

theorem run_of_inl {w : While σ ρ} {s : σ} {r : ρ} (h : w.body s = .inl r) : w.run s = r := by
  rw [run_eq, h]

theorem run_of_inr {w : While σ ρ} {s s' : σ} (h : w.body s = .inr s') : w.run s = w.run s' := by
  rw [run_eq, h]

/-- What holds where the loop ends, and is handed back over one round, holds of the loop. -/
theorem run_induct (w : While σ ρ) {P : σ → ρ → Prop}
    (hdone : ∀ s r, w.body s = .inl r → P s r)
    (hstep : ∀ s s' r, w.body s = .inr s' → P s' r → P s r) (s : σ) : P s (w.run s) := by
  induction h : w.size s using Nat.strongRecOn generalizing s with
  | ind n ih =>
    subst h
    cases hb : w.body s with
    | inl r =>
      rw [run_of_inl hb]
      exact hdone s r hb
    | inr s' =>
      rw [run_of_inr hb]
      exact hstep s s' _ hb (ih _ (w.decreases hb) s' rfl)

end While

end SsoSystem.Loop
