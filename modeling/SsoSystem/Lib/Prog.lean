/-
SsoSystem.Lib.Prog — programs that work on shared state through single calls.

A program ends with a result, ends without one, or makes a call and goes on
with what the call returned. Run on its own (`exec`) it is a function on the
state; run next to others it is interrupted between two calls, so the same
program serves for both. `Only` bounds the calls a program can make on any
path, and `Must` says that no path reaches a
good result before a certain call.
-/
import Mathlib.Tactic.Common

namespace SsoSystem

/-- A program over the calls `Op`, whose answers have the types `Res`. -/
inductive Prog (Op : Type) (Res : Op → Type) (α : Type) : Type where
  | ret (a : α)
  | stuck
  | call (op : Op) (k : Res op → Prog Op Res α)

namespace Prog

variable {Op : Type} {Res : Op → Type} {α σ : Type}

/-- The program run on its own; `none` when it ends without a result. -/
def exec (perform : (op : Op) → σ → Res op × σ) : Prog Op Res α → σ → Option (α × σ)
  | ret a, s => some (a, s)
  | stuck, _ => none
  | call op k, s => (k (perform op s).1).exec perform (perform op s).2

/-! ## §1 The calls a program can make -/

/-- On no path a call outside `P`. -/
def Only (P : Op → Prop) : Prog Op Res α → Prop
  | ret _ => True
  | stuck => True
  | call op k => P op ∧ ∀ r, (k r).Only P

/-! ## §2 Results, and calls that come first -/

/-- On no path a good result before a call in `hit`; before it and after it only calls in `P`. -/
def Must (hit P : Op → Prop) (good : α → Prop) : Prog Op Res α → Prop
  | ret a => ¬good a
  | stuck => True
  | call op k => (hit op → ∀ r, (k r).Only P) ∧ (¬hit op → P op ∧ ∀ r, (k r).Must hit P good)

/-- A call in `P` that is not the awaited one changes nothing. -/
theorem Must.call {hit P : Op → Prop} {good : α → Prop} {op : Op} {k : Res op → Prog Op Res α}
    (hop : P op) (hmiss : ¬hit op) (hk : ∀ r, (k r).Must hit P good) :
    (Prog.call op k).Must hit P good :=
  ⟨fun hhit => absurd hhit hmiss, fun _ => ⟨hop, hk⟩⟩

/-! ## §3 Calls and results together -/

/-- On every path only calls in `P`, and a result in `Q`. -/
def Within (P : Op → Prop) (Q : α → Prop) : Prog Op Res α → Prop
  | ret a => Q a
  | stuck => True
  | call op k => P op ∧ ∀ r, (k r).Within P Q

/-- A run relates its two states as every call does, and ends with such a result. -/
theorem Within.exec {perform : (op : Op) → σ → Res op × σ} {P : Op → Prop} {Q : α → Prop}
    {R : σ → σ → Prop} (hrefl : ∀ s, R s s) (htrans : ∀ s t u, R s t → R t u → R s u)
    (hstep : ∀ op s, P op → R s (perform op s).2) {p : Prog Op Res α} (hp : p.Within P Q)
    {s s' : σ} {a : α} (hexec : p.exec perform s = some (a, s')) : R s s' ∧ Q a := by
  induction p generalizing s with
  | ret b =>
    cases hexec
    exact ⟨hrefl _, hp⟩
  | stuck => cases hexec
  | call op k ih =>
    obtain ⟨hrest, hresult⟩ := ih _ (hp.2 _) hexec
    exact ⟨htrans _ _ _ (hstep op s hp.1) hrest, hresult⟩

end Prog

end SsoSystem
