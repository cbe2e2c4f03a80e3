/-
SsoSystem.Lib.Timeline — versions of a changing state and values that are
fresh with respect to them.

A timeline numbers the states a system went through, one for each write. A
value read off one of them is fresh with respect to a set of writes when
none of these writes came later and changed what was read. So a value that
is fresh with respect to the writes a client knows to be complete is one the
client could have read from the present, as far as these writes go.
-/
import Mathlib.Logic.Function.Basic

namespace SsoSystem.Versions

/-- State 0, and the state after each of `last` writes. -/
structure Timeline (σ : Type) where
  last : Nat
  state : Nat → σ

variable {σ α : Type}

namespace Timeline

def start (s : σ) : Timeline σ where
  last := 0
  state := fun _ => s

/-- One more write. -/
def push (T : Timeline σ) (s : σ) : Timeline σ where
  last := T.last + 1
  state := Function.update T.state (T.last + 1) s

theorem push_state_last (T : Timeline σ) (s : σ) : (T.push s).state (T.push s).last = s := by
  simp [push]

theorem push_state_of_le {T : Timeline σ} {k : Nat} (hk : k ≤ T.last) (s : σ) :
    (T.push s).state k = T.state k :=
  Function.update_of_ne (by omega) ..

end Timeline

/-- Write number `v` does not change a value that could be read before it. -/
def Keeps (T : Timeline σ) (view : σ → Option α) (v : Nat) : Prop :=
  ∀ a, view (T.state (v - 1)) = some a → view (T.state v) = some a

/-- The value was read off a state after which none of the writes in `done`
changed it. -/
def Fresh (T : Timeline σ) (done : List Nat) (view : σ → Option α) (a : α) : Prop :=
  ∃ k ≤ T.last, view (T.state k) = some a ∧ ∀ v ∈ done, k < v → Keeps T view v

variable {T : Timeline σ} {view : σ → Option α} {done : List Nat} {a : α}

theorem fresh_of_last (hdone : ∀ v ∈ done, v ≤ T.last) (ha : view (T.state T.last) = some a) :
    Fresh T done view a :=
  ⟨T.last, Nat.le_refl _, ha, fun v hv hlt => absurd (hdone v hv) (Nat.not_le_of_lt hlt)⟩

theorem Keeps.push {v : Nat} (hk : Keeps T view v) (hv : v ≤ T.last) (s : σ) :
    Keeps (T.push s) view v := by
  intro b hb
  rw [Timeline.push_state_of_le (by omega)] at hb
  rw [Timeline.push_state_of_le hv]
  exact hk b hb

/-- A write that has only begun leaves fresh values fresh. -/
theorem Fresh.push (hf : Fresh T done view a) (hdone : ∀ v ∈ done, v ≤ T.last) (s : σ) :
    Fresh (T.push s) done view a := by
  obtain ⟨k, hk, ha, hkeep⟩ := hf
  refine ⟨k, Nat.le_succ_of_le hk, ?_, fun v hv hlt => (hkeep v hv hlt).push (hdone v hv) s⟩
  rw [Timeline.push_state_of_le hk]
  exact ha

/-- So does the completion of a write that does not concern them. -/
theorem Fresh.complete (hf : Fresh T done view a) {v : Nat} (hv : Keeps T view v) :
    Fresh T (v :: done) view a := by
  obtain ⟨k, hk, ha, hkeep⟩ := hf
  refine ⟨k, hk, ha, fun w hw hlt => ?_⟩
  rcases List.mem_cons.mp hw with rfl | hw
  · exact hv
  · exact hkeep w hw hlt

theorem Fresh.mono {done' : List Nat} (hf : Fresh T done view a) (hsub : ∀ v ∈ done', v ∈ done) :
    Fresh T done' view a := by
  obtain ⟨k, hk, ha, hkeep⟩ := hf
  exact ⟨k, hk, ha, fun v hv => hkeep v (hsub v hv)⟩

end SsoSystem.Versions
