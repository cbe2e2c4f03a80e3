/-
SsoSystem.Lib.DenyOverride — combining votes so that one deny wins.

Voters are asked in order. A voter may say nothing, allow, deny, or never
come back; asking stops at the first deny.

A voter that does not come back may be shielded by a deny in front of it, so the
order counts then (`rearranged_iff_no_stuck`).
-/
import Mathlib.Data.List.Perm.Basic

namespace SsoSystem.DenyOverride

open List

inductive Vote where
  | skip | allow | deny | stuck
  deriving DecidableEq, Repr

/-- Asks the voters in order; `any` remembers an allow seen before. -/
def combine : List Vote → Bool → Option Bool
  | [], any => some any
  | .skip :: vs, any => combine vs any
  | .allow :: vs, _ => combine vs true
  | .deny :: _, _ => some false
  | .stuck :: _, _ => none

theorem combine_of_no_stuck : ∀ {vs : List Vote} {any : Bool}, .stuck ∉ vs →
    combine vs any = some (decide ((any = true ∨ .allow ∈ vs) ∧ .deny ∉ vs))
  | [], any, _ => by simp [combine]
  | v :: vs, any, h => by
    have hvs : Vote.stuck ∉ vs := fun hm => h (mem_cons_of_mem _ hm)
    cases v with
    | skip | allow =>
      rw [combine, combine_of_no_stuck hvs]
      simp
    | deny => simp [combine]
    | stuck => exact absurd (mem_cons_self ..) h

/-- The loop answers yes exactly on an allow, without a deny, with everybody back. -/
theorem combine_eq_some_true_iff : ∀ {vs : List Vote} {any : Bool},
    combine vs any = some true ↔ (any = true ∨ .allow ∈ vs) ∧ .deny ∉ vs ∧ .stuck ∉ vs
  | [], any => by simp [combine]
  | v :: vs, any => by
    cases v with
    | skip | allow =>
      rw [combine, combine_eq_some_true_iff]
      simp
    | deny | stuck => simp [combine]

/-- The loop comes back exactly if nobody in front of the first deny is stuck. -/
theorem combine_eq_some_iff : ∀ {vs : List Vote} {any b : Bool}, combine vs any = some b ↔
    .stuck ∉ vs.takeWhile (fun v => v ≠ .deny) ∧
      b = decide ((any = true ∨ .allow ∈ vs) ∧ .deny ∉ vs)
  | [], any, b => by simp [combine, eq_comm]
  | v :: vs, any, b => by
    cases v with
    | skip | allow =>
      rw [combine, combine_eq_some_iff]
      simp
    | deny => simp [combine, eq_comm]
    | stuck => simp [combine]

/-- A run that came back comes back with the same answer when every voter that
came back in it votes the same again. -/
theorem combine_eq_of_agree : ∀ {vs ws : List Vote} {any r : Bool},
    List.Forall₂ (fun v w => v = .stuck ∨ v = w) vs ws →
    combine vs any = some r → combine ws any = some r
  | [], _, any, r, hag, h => by
    cases hag
    exact h
  | v :: vs, _, any, r, hag, h => by
    cases hag with
    | cons hv hrest =>
      rcases hv with rfl | rfl
      · simp [combine] at h
      · cases v with
        | skip | allow =>
          rw [combine] at h ⊢
          exact combine_eq_of_agree hrest h
        | deny => exact h
        | stuck => simp [combine] at h

section Rearranged

variable {α : Type} (vote : α → Vote)

/-- The same voters up to order and up to silent ones. -/
def Rearranged (xs ys : List α) : Prop :=
  (xs.filter fun x => vote x ≠ .skip).Perm (ys.filter fun x => vote x ≠ .skip)

variable {vote}

theorem Rearranged.mem_votes_iff {xs ys : List α} (h : Rearranged vote xs ys) {v : Vote}
    (hv : v ≠ .skip) : v ∈ xs.map vote ↔ v ∈ ys.map vote := by
  have hmem : ∀ x, x ∈ xs ∧ vote x ≠ .skip ↔ x ∈ ys ∧ vote x ≠ .skip := by
    intro x
    simpa using h.mem_iff (a := x)
  constructor
  · intro hm
    obtain ⟨x, hx, rfl⟩ := mem_map.mp hm
    exact mem_map.mpr ⟨x, ((hmem x).mp ⟨hx, hv⟩).1, rfl⟩
  · intro hm
    obtain ⟨x, hx, rfl⟩ := mem_map.mp hm
    exact mem_map.mpr ⟨x, ((hmem x).mpr ⟨hx, hv⟩).1, rfl⟩

theorem Rearranged.of_perm {xs ys : List α} (h : xs.Perm ys) : Rearranged vote xs ys :=
  h.filter _

/-- Every rearrangement is answered by the deny-override law exactly when no
voter fails to come back. -/
theorem rearranged_iff_no_stuck (xs : List α) :
    (∀ ys, Rearranged vote xs ys → combine (ys.map vote) false =
      some (decide (.allow ∈ xs.map vote ∧ .deny ∉ xs.map vote))) ↔ .stuck ∉ xs.map vote := by
  constructor
  · intro h hm
    obtain ⟨x, hx, hvx⟩ := mem_map.mp hm
    -- the voter that does not come back is asked first
    obtain ⟨l, r, rfl⟩ := append_of_mem hx
    have hfirst := h (x :: (l ++ r)) (.of_perm perm_middle)
    simp [combine, hvx] at hfirst
  · intro h ys hys
    have hys' : Vote.stuck ∉ ys.map vote := fun hm =>
      h ((hys.mem_votes_iff (by decide)).mpr hm)
    have hallow := hys.mem_votes_iff (v := .allow) (by decide)
    have hdeny := hys.mem_votes_iff (v := .deny) (by decide)
    simp [combine_of_no_stuck hys', hallow, hdeny]

end Rearranged

end SsoSystem.DenyOverride
