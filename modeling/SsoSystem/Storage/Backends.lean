/-
SsoSystem.Storage.Backends — which roles a user holds, in every storage
backend (`get_user_roles_with_ancestors` and `role_get_by_name` in
src/storage_memory.c, src/storage_redis.c, src/storage_sqlite.c and
src/storage_postgres.c, `user_has_role` in strategies/rbac_perm.c).

The tables are the same in all four, so they are one `Store`, whose lists
stand in the order in which the backend answers. The in-memory backend and
Redis climb from role to role; SQLite and PostgreSQL are asked one recursive
query, whose meaning is `InTree` and whose rows come in an order of the
database's own (`SqlRows`). Redis finds a role by name through an index that
an update does not touch.

None of them reads the roles assigned to groups.
-/
import Mathlib.Data.List.Dedup
import SsoSystem.Lib.Climb
import SsoSystem.Strategy.Dispatch

namespace SsoSystem

open CMem Climb List Option

namespace Store

variable (s : Store)

/-! ## §1 The climb -/

def isActive (rid : Nat) : Bool := (s.activeRole rid).isSome

/-- The parent of a role, if there is one and it is active. -/
def activeParent (rid : Nat) : Option Nat :=
  match s.roleGetParent rid with
  | none => none
  | some par => if par = 0 then none else if s.isActive par then some par else none

/-- A role the user has been given, or one above it, with only active roles on the way. -/
def HeldActively (uid rid : Nat) : Prop :=
  ∃ d, (d, uid) ∈ s.userRoles ∧ s.isActive d = true ∧ Reaches s.activeParent d rid

variable {s}

theorem addDistinct_eq_addNew (ids : List Nat) (x : Nat) : addDistinct ids x = addNew ids x := rfl

theorem climb_eq_collect (m : Nat) : ∀ (fuel cur : Nat) (ids : List Nat),
    s.climb m fuel cur ids = collect s.activeParent m fuel cur ids
  | 0, _, _ => rfl
  | fuel + 1, cur, ids => by
    rw [climb, collect]
    cases hpar : s.roleGetParent cur with
    | none => simp only [activeParent, hpar]
    | some par =>
      by_cases hzero : par = 0
      · simp only [activeParent, hpar, hzero, if_true]
      · cases hactive : s.activeRole par with
        | none => simp [activeParent, isActive, hpar, hzero, hactive]
        | some role =>
          simp only [activeParent, isActive, hpar, hzero, hactive, if_false, Option.isSome_some,
            if_true]
          rw [climb_eq_collect m fuel, addDistinct_eq_addNew]

theorem climbAll_eq_collectAll (m : Nat) : ∀ ds ids : List Nat,
    s.climbAll m ds ids = collectAll s.activeParent s.isActive (s.roles.length + 1) m ds ids
  | [], _ => rfl
  | d :: ds, ids => by
    rw [climbAll, collectAll]
    cases hactive : s.activeRole d with
    | none => simp [isActive, hactive, climbAll_eq_collectAll m ds]
    | some role =>
      cases hclimb : collect s.activeParent m (s.roles.length + 1) d (addNew ids d) with
      | none => simp [isActive, hactive, climb_eq_collect, addDistinct_eq_addNew, hclimb]
      | some ids' =>
        simp [isActive, hactive, climb_eq_collect, addDistinct_eq_addNew, hclimb,
          climbAll_eq_collectAll m ds]

/-- What the climb lists: roles held with only active roles on the way, starting from the
first 64 of the user's own, and all of those if the list is not full. -/
theorem getUserRolesWithAncestors_spec {uid m : Nat} {ids : List Nat}
    (h : s.getUserRolesWithAncestors uid m = some ids) :
    Collected m (Above s.activeParent s.isActive (s.getUserRoles uid 64)) [] ids := by
  unfold getUserRolesWithAncestors at h
  rw [climbAll_eq_collectAll] at h
  exact collectAll_spec h

/-! ## §2 The recursive query -/

/-- The rows of `user_role_tree`: the user's roles, and the parents of active rows. -/
inductive InTree (s : Store) (uid : Nat) : Nat → Prop where
  | direct {rid : Nat} (h : (rid, uid) ∈ s.userRoles) : InTree s uid rid
  | parent {rid : Nat} {role : Role} (h : InTree s uid rid) (hrow : s.roleGetById rid = some role)
      (hactive : role.status = .active) (hparent : role.parentRoleId ≠ 0) :
      InTree s uid role.parentRoleId

/-- What a database answers to the query for each user, in an order of its own. -/
structure SqlRows (s : Store) where
  rows : Nat → List Nat
  nodup : ∀ uid, (rows uid).Nodup
  mem_iff : ∀ uid rid, rid ∈ rows uid ↔ InTree s uid rid ∧ s.isActive rid = true

theorem isActive_iff {rid : Nat} :
    s.isActive rid = true ↔ ∃ role, s.roleGetById rid = some role ∧ role.status = .active := by
  unfold isActive activeRole
  cases s.roleGetById rid with
  | none => simp
  | some role => simp

theorem activeParent_eq_some_iff {rid par : Nat} :
    s.activeParent rid = some par ↔
      s.roleGetParent rid = some par ∧ par ≠ 0 ∧ s.isActive par = true := by
  unfold activeParent
  cases s.roleGetParent rid with
  | none => simp
  | some p =>
    dsimp only
    split
    · next hzero =>
      constructor
      · intro h
        cases h
      · rintro ⟨heq, hne, -⟩
        exact absurd ((some.inj heq).symm.trans hzero) hne
    · next hzero =>
      split
      · next hactive =>
        constructor
        · rintro ⟨rfl⟩
          exact ⟨rfl, hzero, hactive⟩
        · exact fun h => h.1
      · next hactive =>
        constructor
        · intro h
          cases h
        · rintro ⟨heq, -, hp⟩
          rw [some.inj heq] at hactive
          exact absurd hp hactive

theorem isActive_of_reaches {d rid : Nat} (hd : s.isActive d = true)
    (h : Reaches s.activeParent d rid) : s.isActive rid = true := by
  induction h with
  | refl => exact hd
  | tail _ hup _ => exact (activeParent_eq_some_iff.mp hup).2.2

theorem inTree_and_isActive_iff {uid rid : Nat} :
    InTree s uid rid ∧ s.isActive rid = true ↔ s.HeldActively uid rid := by
  constructor
  · rintro ⟨htree, hactive⟩
    induction htree with
    | direct h => exact ⟨_, h, hactive, .refl _⟩
    | parent h hrow hstatus hparent ih =>
      obtain ⟨d, hd, hstart, hreach⟩ := ih (isActive_iff.mpr ⟨_, hrow, hstatus⟩)
      refine ⟨d, hd, hstart, hreach.tail (activeParent_eq_some_iff.mpr ⟨?_, hparent, hactive⟩)⟩
      rw [roleGetParent, hrow]
      rfl
  · rintro ⟨d, hd, hstart, hreach⟩
    refine ⟨?_, isActive_of_reaches hstart hreach⟩
    induction hreach with
    | refl => exact .direct hd
    | tail hprev hup ih =>
      obtain ⟨role, hrow, hstatus⟩ := isActive_iff.mp (isActive_of_reaches hstart hprev)
      obtain ⟨hparent, hne, -⟩ := activeParent_eq_some_iff.mp hup
      rw [roleGetParent, hrow, map_some, some.injEq] at hparent
      subst hparent
      exact .parent ih hrow hstatus hne

theorem nonempty_sqlRows (s : Store) : Nonempty (SqlRows s) := by
  classical
  refine ⟨fun uid => ((s.roles.map Role.id).dedup).filter fun rid =>
    decide (InTree s uid rid ∧ s.isActive rid = true), fun uid => ?_, fun uid rid => ?_⟩
  · exact (nodup_dedup _).filter _
  · rw [mem_filter, mem_dedup, decide_eq_true_iff]
    refine and_iff_right_of_imp fun h => ?_
    obtain ⟨role, hrow, -⟩ := isActive_iff.mp h.2
    refine mem_map.mpr ⟨role, mem_of_find?_eq_some hrow, ?_⟩
    simpa using find?_some hrow

end Store

/-! ## §3 The backends -/

/-- The storage backends, with what each has beside the tables: Redis its index of role names,
the databases their answers to the query. -/
inductive RoleBackend (s : Store) where
  | memory
  | redis (nameIndex : Bytes → Option Nat)
  | sqlite (answers : Store.SqlRows s)
  | postgres (answers : Store.SqlRows s)

namespace RoleBackend

variable {s : Store}

/-- `get_user_roles_with_ancestors`; `none` when it does not return. -/
def rolesWithAncestors (uid max : Nat) : RoleBackend s → Option (List Nat)
  | .memory | .redis _ => s.getUserRolesWithAncestors uid max
  | .sqlite answers | .postgres answers => some ((answers.rows uid).take max)

/-- `role_get_by_name`. -/
def roleGetByName (name : Bytes) : RoleBackend s → Option Role
  | .redis nameIndex => (nameIndex name).bind s.roleGetById
  | .memory | .sqlite _ | .postgres _ => s.roleGetByName name

/-- `user_has_role`. -/
def userHasRole (b : RoleBackend s) (uid : Nat) (roleName : Bytes) : Option Bool :=
  match b.roleGetByName roleName with
  | none => some false
  | some role => (b.rolesWithAncestors uid 128).map fun ids => ids.contains role.id

theorem userHasRole_memory (uid : Nat) (roleName : Bytes) :
    (memory : RoleBackend s).userHasRole uid roleName = SsoSystem.userHasRole s uid roleName := rfl

end RoleBackend

end SsoSystem
