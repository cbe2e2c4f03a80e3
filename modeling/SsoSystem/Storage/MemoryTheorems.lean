/-
SsoSystem.Storage.MemoryTheorems — what the queries of the in-memory store
read, and which writes they do not see.

The effective roles of a user are computed from the role table and the
user-role pairs alone (`userRolesWithAncestors_congr`), which is what makes a
write elsewhere invisible to the role strategy. A record added at the end of
a table is invisible to lookups of any other id.
-/
import SsoSystem.Storage.Memory

namespace SsoSystem

open List

namespace Store

/-! ## §1 Effective roles -/

section RolesCongr

variable {s s' : Store} (hr : s.roles = s'.roles)
include hr

/-- Stores with the same roles find the same role. -/
theorem roleGetById_congr (id : Nat) : s.roleGetById id = s'.roleGetById id := by
  unfold roleGetById
  rw [hr]

theorem roleGetParent_congr (rid : Nat) : s.roleGetParent rid = s'.roleGetParent rid := by
  unfold roleGetParent
  rw [roleGetById_congr hr]

theorem activeRole_congr (rid : Nat) : s.activeRole rid = s'.activeRole rid := by
  unfold activeRole
  rw [roleGetById_congr hr]

/-- The climb to the ancestors reads nothing but the roles. -/
theorem climb_congr (m : Nat) : ∀ (fuel cur : Nat) (ids : List Nat),
    s.climb m fuel cur ids = s'.climb m fuel cur ids
  | 0, _, _ => rfl
  | fuel + 1, cur, ids => by
    unfold climb
    rw [roleGetParent_congr hr]
    simp only [activeRole_congr hr, climb_congr m fuel]

theorem climbAll_congr (m : Nat) : ∀ (ds ids : List Nat),
    s.climbAll m ds ids = s'.climbAll m ds ids
  | [], _ => rfl
  | d :: ds, ids => by
    unfold climbAll
    rw [activeRole_congr hr, hr]
    simp only [climb_congr hr, climbAll_congr m ds]

/-- A user's effective roles depend on the roles and on the user's own links only. -/
theorem userRolesWithAncestors_congr {uid : Nat}
    (hu : s.getUserRoles uid 64 = s'.getUserRoles uid 64) (m : Nat) :
    s.getUserRolesWithAncestors uid m = s'.getUserRolesWithAncestors uid m := by
  unfold getUserRolesWithAncestors
  rw [hu, climbAll_congr hr]

end RolesCongr

/-! ## §2 A role added at the end -/

variable {s : Store} {α : Type} {l : List (Nat × Nat)}

/-- A climb that ends does so with more fuel, too. -/
theorem climb_mono {m : Nat} : ∀ {fuel cur : Nat} {ids r : List Nat},
    s.climb m fuel cur ids = some r → s.climb m (fuel + 1) cur ids = some r
  | 0, cur, ids, r, h => by
    unfold climb at h ⊢
    split at h
    · cases h
    · next hfull => rw [if_neg hfull]; exact h
  | fuel + 1, cur, ids, r, h => by
    rw [climb] at h ⊢
    split at h
    · next hroom =>
      rw [if_pos hroom]
      cases hp : s.roleGetParent cur with
      | none => simpa [hp] using h
      | some par =>
        simp only [hp] at h ⊢
        split at h
        · next h0 => rw [if_pos h0]; exact h
        · next h0 =>
          rw [if_neg h0]
          cases ha : s.activeRole par with
          | none => simpa [ha] using h
          | some role =>
            simp only [ha] at h ⊢
            exact climb_mono h
    · next hfull => rw [if_neg hfull]; exact h

section NewRole

variable {s s' : Store} {n : Nat}
  (hget : ∀ id, id ≠ n → s.roleGetById id = s'.roleGetById id)
  (hpar : ∀ r ∈ s.roles, r.parentRoleId ≠ n)
include hget hpar

omit hget in
/-- No stored role has the new role as its parent. -/
theorem roleGetParent_ne {cur par : Nat} (hp : s.roleGetParent cur = some par) : par ≠ n := by
  obtain ⟨r, hr, rfl⟩ := Option.map_eq_some_iff.mp hp
  exact hpar r (mem_of_find?_eq_some hr)

variable {m : Nat}

/-- A climb that starts below never meets the new role, so it takes the same way. -/
theorem climb_create : ∀ {fuel cur : Nat} {ids : List Nat}, cur ≠ n →
    s.climb m fuel cur ids = s'.climb m fuel cur ids
  | 0, _, _, _ => rfl
  | fuel + 1, cur, ids, hcur => by
    have hparent : s.roleGetParent cur = s'.roleGetParent cur := by
      unfold roleGetParent
      rw [hget cur hcur]
    rw [climb, climb, ← hparent]
    cases hp : s.roleGetParent cur with
    | none => rfl
    | some par =>
      have hne := roleGetParent_ne hpar hp
      have hact : s.activeRole par = s'.activeRole par := by
        unfold activeRole
        rw [hget par hne]
      simp only [← hact, climb_create hne]

omit hget in
/-- And its id is not collected. -/
theorem not_mem_climb : ∀ {fuel cur : Nat} {ids r : List Nat}, n ∉ ids →
    s.climb m fuel cur ids = some r → n ∉ r
  | 0, cur, ids, r, hn, h => by
    rw [climb] at h
    split at h
    · cases h
    · cases h; exact hn
  | fuel + 1, cur, ids, r, hn, h => by
    rw [climb] at h
    split at h
    · cases hp : s.roleGetParent cur with
      | none =>
        simp only [hp, Option.some.injEq] at h
        exact h ▸ hn
      | some par =>
        have hne := roleGetParent_ne hpar hp
        simp only [hp] at h
        split at h
        · cases h; exact hn
        · cases ha : s.activeRole par with
          | none =>
            simp only [ha, Option.some.injEq] at h
            exact h ▸ hn
          | some role =>
            simp only [ha] at h
            refine not_mem_climb ?_ h
            unfold addDistinct
            split
            · exact hn
            · simpa [hn] using Ne.symm hne
    · cases h; exact hn

/-- With one more role in the table, the loop over roles other than the new one
comes back with the same list, which the new role is not in. -/
theorem climbAll_create (hlen : s'.roles.length = s.roles.length + 1) :
    ∀ {ds ids r : List Nat}, n ∉ ds → n ∉ ids → s.climbAll m ds ids = some r →
    s'.climbAll m ds ids = some r ∧ n ∉ r
  | [], ids, r, _, hids, h => by
    cases h
    exact ⟨rfl, hids⟩
  | d :: ds, ids, r, hds, hids, h => by
    have hd : d ≠ n := fun he => hds (he ▸ mem_cons_self ..)
    have hds' : n ∉ ds := fun hm => hds (mem_cons_of_mem _ hm)
    have hact : s.activeRole d = s'.activeRole d := by
      unfold activeRole
      rw [hget d hd]
    rw [climbAll] at h ⊢
    split at h
    · next hroom =>
      rw [if_pos hroom, ← hact]
      cases ha : s.activeRole d with
      | none =>
        simp only [ha] at h ⊢
        exact climbAll_create hlen hds' hids h
      | some role =>
        simp only [ha] at h ⊢
        cases hc : s.climb m (s.roles.length + 1) d (addDistinct ids d) with
        | none => simp [hc] at h
        | some ids' =>
          have hstart : n ∉ addDistinct ids d := by
            unfold addDistinct
            split
            · exact hids
            · simpa [hids] using Ne.symm hd
          have hc' : s'.climb m (s'.roles.length + 1) d (addDistinct ids d) = some ids' := by
            rw [hlen, ← climb_create hget hpar hd]
            exact climb_mono hc
          simp only [hc] at h
          simp only [hc']
          exact climbAll_create hlen hds' (not_mem_climb hpar hstart hc) h
    · next hfull =>
      rw [if_neg hfull]
      cases h
      exact ⟨rfl, hids⟩

end NewRole

/-! ## §3 Tables -/

/-- Adding a row leaves the search for another id alone. -/
theorem find?_append_of_ne {α : Type} {f : α → Nat} {l : List α} {x : α} {id : Nat}
    (hne : f x ≠ id) : (l ++ [x]).find? (fun y => f y == id) = l.find? fun y => f y == id := by
  rw [find?_append, find?_singleton]
  simp [hne]

/-- So does updating a row. -/
theorem find?_replaceFirst_of_ne {α : Type} {f : α → Nat} {x : α} {id : Nat} (hne : f x ≠ id) :
    ∀ l : List α, (replaceFirst (fun y => f y == f x) x l).find? (fun y => f y == id) =
      l.find? fun y => f y == id
  | [] => rfl
  | y :: ys => by
    rw [replaceFirst]
    split
    · next hy =>
      have hy' : f y ≠ id := fun he => hne (by rw [← he]; exact (beq_iff_eq.mp hy).symm)
      rw [find?_cons_of_neg (by simpa using hne), find?_cons_of_neg (by simpa using hy')]
    · rw [find?_cons, find?_cons, find?_replaceFirst_of_ne hne ys]

/-- So does deleting one. -/
theorem find?_eraseP_of_ne {α : Type} {f : α → Nat} {id id' : Nat} (hne : id' ≠ id) :
    ∀ l : List α, (l.eraseP fun y => f y == id').find? (fun y => f y == id) =
      l.find? fun y => f y == id
  | [] => rfl
  | y :: ys => by
    by_cases hy : f y = id'
    · rw [eraseP_cons_of_pos (by simpa using hy),
        find?_cons_of_neg (by simpa [hy] using hne)]
    · rw [eraseP_cons_of_neg (by simpa using hy), find?_cons, find?_cons,
        find?_eraseP_of_ne hne ys]

theorem mem_replaceFirst {p : α → Bool} {x y : α} : ∀ {l : List α},
    y ∈ replaceFirst p x l → y = x ∨ y ∈ l
  | [], h => absurd h (not_mem_nil)
  | z :: zs, h => by
    rw [replaceFirst] at h
    split at h
    · rcases mem_cons.mp h with rfl | h'
      · exact .inl rfl
      · exact .inr (mem_cons_of_mem _ h')
    · rcases mem_cons.mp h with rfl | h'
      · exact .inr (mem_cons_self ..)
      · rcases mem_replaceFirst h' with rfl | hm
        · exact .inl rfl
        · exact .inr (mem_cons_of_mem _ hm)

/-- What `pl_get_a` returns is linked to the key. -/
theorem mem_of_mem_plGetA {key max a : Nat} (h : a ∈ plGetA l key max) : (a, key) ∈ l := by
  obtain ⟨⟨x, y⟩, hx, rfl⟩ := mem_map.mp (mem_of_mem_take h)
  obtain ⟨hmem, hkey⟩ := mem_filter.mp hx
  have hy : y = key := by simpa using hkey
  exact hy ▸ hmem

/-- The same for `pl_get_b`, with the columns exchanged. -/
theorem mem_of_mem_plGetB {key max a : Nat} (h : a ∈ plGetB l key max) : (key, a) ∈ l := by
  obtain ⟨⟨x, y⟩, hx, rfl⟩ := mem_map.mp (mem_of_mem_take h)
  obtain ⟨hmem, hkey⟩ := mem_filter.mp hx
  have hx : x = key := by simpa using hkey
  exact hx ▸ hmem

theorem filter_eraseP_of_imp {p q : α → Bool} (h : ∀ x, q x = true → p x = false) :
    ∀ l : List α, (l.eraseP q).filter p = l.filter p
  | [] => rfl
  | x :: xs => by
    by_cases hq : q x = true
    · rw [eraseP_cons_of_pos hq, filter_cons_of_neg (by simp [h x hq])]
    · rw [eraseP_cons_of_neg hq, filter_cons, filter_cons, filter_eraseP_of_imp h xs]

/-- A user found by id has that id. -/
theorem userGetById_id {uid : Nat} {user : User} (hu : s.userGetById uid = some user) :
    user.id = uid := by
  simpa using find?_some hu

end Store

end SsoSystem
