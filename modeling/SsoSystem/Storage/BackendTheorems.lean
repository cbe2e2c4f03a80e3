/-
SsoSystem.Storage.BackendTheorems — when the effective roles of a user are
found, and which they are.

The climb of the in-memory backend and of Redis is bounded by the number of
distinct roles it has listed, not by the number of steps it has made.
`effectiveRoles_terminate_iff`: it comes back unless it enters a cycle of
active roles with room left for every role it can meet. The databases come
back on every store.
-/
import SsoSystem.Storage.Backends
import SsoSystem.Storage.IntegrityTheorems

namespace SsoSystem

open CMem Climb Run List Option Store

/-! ## §1 Only roles of the table are climbed to -/

namespace Store

variable {s : Store}

theorem mem_roleIds_of_isActive {rid : Nat} (h : s.isActive rid = true) : rid ∈ s.roleIds := by
  obtain ⟨role, hrow, -⟩ := isActive_iff.mp h
  exact isSome_find?_iff.mp (isSome_iff_exists.mpr ⟨role, hrow⟩)

theorem mem_roleIds_of_over {d rid : Nat} (h : Over s.activeParent d rid) : rid ∈ s.roleIds := by
  obtain ⟨next, hup, hreach⟩ := h
  have hactive := (activeParent_eq_some_iff.mp hup).2.2
  exact mem_roleIds_of_isActive (isActive_of_reaches hactive hreach)

theorem finite_over (d : Nat) : {rid | Over s.activeParent d rid}.Finite :=
  s.roleIds.finite_toSet.subset fun _ h => mem_roleIds_of_over h

theorem ncard_over_le (d : Nat) : {rid | Over s.activeParent d rid}.ncard ≤ s.roles.length := by
  rw [← length_map Role.id]
  exact ncard_le_length fun _ h => mem_roleIds_of_over h

theorem ncard_gathered_le (ds : List Nat) :
    (Gathered s.activeParent s.isActive [] ds).ncard ≤ s.roles.length := by
  rw [← length_map Role.id]
  refine ncard_le_length fun rid h => ?_
  obtain ⟨d, -, hstart, hreach⟩ := h.resolve_left not_mem_nil
  exact mem_roleIds_of_isActive (isActive_of_reaches hstart hreach)

/-- One of the user's first 64 roles is active and has a cycle of active roles above it, and
fewer than `max` roles lie above it and those before it. -/
def CycleWithRoom (s : Store) (uid max : Nat) : Prop :=
  ∃ before d after, s.getUserRoles uid 64 = before ++ d :: after ∧ s.isActive d = true ∧
    (∃ rid, Reaches s.activeParent d rid ∧ Over s.activeParent rid rid) ∧
    {rid | Above s.activeParent s.isActive (before ++ [d]) rid}.ncard < max

theorem gathered_nil (ds : List Nat) : Gathered s.activeParent s.isActive [] ds =
    {rid | Above s.activeParent s.isActive ds rid} := by
  ext rid
  simp [Gathered]

theorem trapped_iff {uid max : Nat} :
    Trapped s.activeParent s.isActive max [] (s.getUserRoles uid 64) ↔ s.CycleWithRoom uid max := by
  simp only [Trapped, CycleWithRoom, endless_iff_cycle (finite_over _), gathered_nil]

end Store

/-! ## §2 Termination -/

namespace RoleBackend

variable {s : Store}

/-- Whether the backend climbs itself. -/
def climbs : RoleBackend s → Bool
  | .memory | .redis _ => true
  | .sqlite _ | .postgres _ => false

/-- `get_user_roles_with_ancestors` with at most `fuel` turns of the inner loop for each of the
user's roles. -/
def walk (uid max fuel : Nat) : RoleBackend s → Option (List Nat)
  | .memory | .redis _ => collectAll s.activeParent s.isActive fuel max (s.getUserRoles uid 64) []
  | .sqlite answers | .postgres answers => some ((answers.rows uid).take max)

/-- The loops are left after some number of turns. -/
def Terminates (b : RoleBackend s) (uid max : Nat) : Prop := ∃ fuel, (b.walk uid max fuel).isSome

theorem rolesWithAncestors_eq_walk (b : RoleBackend s) (uid max : Nat) :
    b.rolesWithAncestors uid max = b.walk uid max (s.roles.length + 1) := by
  cases b with
  | memory | redis => exact climbAll_eq_collectAll max _ []
  | sqlite answers => rfl
  | postgres answers => rfl

theorem exists_walk_iff {uid max : Nat} :
    (∃ fuel, (collectAll s.activeParent s.isActive fuel max (s.getUserRoles uid 64) []).isSome) ↔
      ¬ s.CycleWithRoom uid max := by
  rw [exists_collectAll_iff nodup_nil finite_over ncard_over_le, trapped_iff]

/-- The number of turns the model allows is enough. -/
theorem isSome_rolesWithAncestors_iff (b : RoleBackend s) (uid max : Nat) :
    (b.rolesWithAncestors uid max).isSome ↔ b.Terminates uid max := by
  rw [rolesWithAncestors_eq_walk]
  refine ⟨fun h => ⟨_, h⟩, fun ⟨fuel, h⟩ => ?_⟩
  cases b with
  | memory | redis _ =>
    rw [walk, isSome_iff_ne_none, ne_eq, collectAll_eq_none_iff nodup_nil
      finite_over fun d => Nat.lt_succ_of_le (ncard_over_le d), trapped_iff]
    exact exists_walk_iff.mp ⟨fuel, h⟩
  | sqlite _ | postgres _ => rfl

/-- The effective roles are found on every store and in every backend, except by a climb that
enters a cycle of active roles before its list is full. -/
theorem effectiveRoles_terminate_iff (b : RoleBackend s) (uid max : Nat) :
    b.Terminates uid max ↔ (b.climbs = true → ¬ s.CycleWithRoom uid max) := by
  cases b with
  | memory | redis _ => exact exists_walk_iff.trans ⟨fun h _ => h, fun h => h rfl⟩
  | sqlite _ | postgres _ => exact iff_of_true ⟨0, rfl⟩ fun h => nomatch h

/-- Role 1 is made, then role 2 below it, then role 1 is put below role 2. -/
def cycleWrites : List StoreWrite :=
  [.roleCreate { id := 0, name := lit "staff", parentRoleId := 0, status := .active },
   .roleCreate { id := 0, name := lit "admin", parentRoleId := 1, status := .active },
   .roleUpdate { id := 1, name := lit "staff", parentRoleId := 2, status := .active },
   .assignRoleToUser 1 1]

/-- What they leave: each of the two roles has the other as its parent. -/
def cycleStore : Store :=
  { memOpen with
    roles := [{ id := 1, name := lit "staff", parentRoleId := 2, status := .active },
      { id := 2, name := lit "admin", parentRoleId := 1, status := .active }]
    userRoles := [(1, 1)]
    nextRid := 3 }

theorem cycleStore_cycleWithRoom : cycleStore.CycleWithRoom 1 128 := by
  refine ⟨[], 1, [], by decide +kernel, by decide +kernel, ⟨1, .refl 1, 2, by decide +kernel,
    .head (by decide +kernel) (.refl 1)⟩, ?_⟩
  rw [← gathered_nil]
  exact Nat.lt_of_le_of_lt (ncard_gathered_le _) (by decide +kernel)

/-- After these calls neither the in-memory backend nor Redis finds the roles of user 1. -/
theorem cycleWrites_never_return : run StoreWrite.step cycleWrites memOpen = some cycleStore ∧
    ¬ (memory : RoleBackend cycleStore).Terminates 1 128 ∧
    ∀ nameIndex, ¬ (redis nameIndex : RoleBackend cycleStore).Terminates 1 128 :=
  ⟨by decide +kernel, fun h => exists_walk_iff.mp h cycleStore_cycleWithRoom,
    fun _ h => exists_walk_iff.mp h cycleStore_cycleWithRoom⟩

end RoleBackend

/-! ## §3 The roles found -/

namespace Store

variable {s : Store}

/-- The parent a role names, active or not. -/
def parentOf (s : Store) (rid : Nat) : Option Nat := (s.roleGetParent rid).filter (· ≠ 0)

/-- No role lies above itself. -/
def ParentsAcyclic (s : Store) : Prop := ∀ rid, ¬ Over s.parentOf rid rid

theorem parentOf_of_activeParent {rid par : Nat} (h : s.activeParent rid = some par) :
    s.parentOf rid = some par := by
  obtain ⟨hparent, hne, -⟩ := activeParent_eq_some_iff.mp h
  simp [parentOf, hparent, hne]

theorem ParentsAcyclic.not_over (h : s.ParentsAcyclic) (rid : Nat) :
    ¬ Over s.activeParent rid rid := by
  rintro ⟨next, hup, hreach⟩
  exact h rid ⟨next, parentOf_of_activeParent hup,
    Relation.ReflTransGen.mono (fun _ _ => parentOf_of_activeParent) _ _ hreach⟩

/-- With room for all rows of a key, none of them is left out. -/
theorem mem_plGetA_iff {l : List (Nat × Nat)} {key max a : Nat}
    (hroom : (l.filter fun row => row.2 == key).length ≤ max) :
    a ∈ plGetA l key max ↔ (a, key) ∈ l := by
  refine ⟨mem_of_mem_plGetA, fun h => ?_⟩
  rw [plGetA, take_of_length_le (by rwa [length_map])]
  exact mem_map.mpr ⟨(a, key), mem_filter.mpr ⟨h, by simp⟩, rfl⟩

/-- A user with at most 64 roles: none of them is left out. -/
theorem above_iff_heldActively {uid : Nat}
    (hdirect : (s.userRoles.filter fun row => row.2 == uid).length ≤ 64) (rid : Nat) :
    Above s.activeParent s.isActive (s.getUserRoles uid 64) rid ↔ s.HeldActively uid rid := by
  have hmem : ∀ d, d ∈ s.getUserRoles uid 64 ↔ (d, uid) ∈ s.userRoles := fun _ =>
    mem_plGetA_iff hdirect
  simp only [Above, HeldActively, hmem]

theorem finite_heldActively (uid : Nat) : {rid | s.HeldActively uid rid}.Finite :=
  s.roleIds.finite_toSet.subset fun _ ⟨_, _, hstart, hreach⟩ =>
    mem_roleIds_of_isActive (isActive_of_reaches hstart hreach)

theorem ncard_heldActively_le (uid : Nat) :
    {rid | s.HeldActively uid rid}.ncard ≤ s.roles.length := by
  rw [← length_map Role.id]
  exact ncard_le_length fun _ ⟨_, _, hstart, hreach⟩ =>
    mem_roleIds_of_isActive (isActive_of_reaches hstart hreach)

/-- Distinct elements of a finite set, as many as it has: all of them. -/
theorem mem_of_ncard_le_length {ids : List Nat} {T : Set Nat} (hT : T.Finite) (hids : ids.Nodup)
    (hsub : ∀ y ∈ ids, y ∈ T) (hlen : T.ncard ≤ ids.length) {y : Nat} (hy : y ∈ T) : y ∈ ids := by
  have heq : (ids.toFinset : Set Nat) = T := by
    refine Set.eq_of_subset_of_ncard_le (fun z hz => hsub z (by simpa using hz)) ?_ hT
    rwa [Set.ncard_coe_finset, toFinset_card_of_nodup hids]
  rw [← heq] at hy
  simpa using hy

/-- Where nothing is cut off, the climb lists the roles held through active roles only. -/
theorem exists_climb {uid max : Nat} (hacyclic : s.ParentsAcyclic)
    (hdirect : (s.userRoles.filter fun row => row.2 == uid).length ≤ 64)
    (hroom : {rid | s.HeldActively uid rid}.ncard ≤ max) :
    ∃ ids, s.getUserRolesWithAncestors uid max = some ids ∧ ids.Nodup ∧
      ∀ rid, rid ∈ ids ↔ s.HeldActively uid rid := by
  have hfound : (s.getUserRolesWithAncestors uid max).isSome := by
    refine (RoleBackend.isSome_rolesWithAncestors_iff .memory uid max).mpr
      (RoleBackend.exists_walk_iff.mpr ?_)
    rintro ⟨_, _, _, _, _, ⟨rid, _, hcycle⟩, _⟩
    exact hacyclic.not_over rid hcycle
  obtain ⟨ids, hids⟩ := isSome_iff_exists.mp hfound
  have hnodup : ids.Nodup := by
    rw [getUserRolesWithAncestors, climbAll_eq_collectAll] at hids
    exact nodup_collectAll nodup_nil hids
  have hspec := (getUserRolesWithAncestors_spec hids).congr (above_iff_heldActively hdirect)
  have hsound : ∀ rid ∈ ids, s.HeldActively uid rid := fun rid h =>
    (hspec.sound rid h).resolve_left not_mem_nil
  refine ⟨ids, hids, hnodup, fun rid => ⟨hsound rid, fun h => ?_⟩⟩
  -- a full list has as many roles as there are
  rcases Nat.lt_or_ge ids.length max with hlt | hge
  · exact hspec.complete hlt rid h
  · exact mem_of_ncard_le_length (finite_heldActively uid) hnodup hsound (hroom.trans hge) h

theorem SqlRows.mem_rows_iff (answers : SqlRows s) {uid rid : Nat} :
    rid ∈ answers.rows uid ↔ s.HeldActively uid rid :=
  (answers.mem_iff uid rid).trans inTree_and_isActive_iff

/-- Without cycles among the parents, and with at most 64 roles of the user's own and an output
array with room for all: the climb comes back with the roles held through active roles only,
each once, and the recursive query denotes the same set. -/
theorem effectiveRoles_exact {uid max : Nat} (hacyclic : s.ParentsAcyclic)
    (hdirect : (s.userRoles.filter fun row => row.2 == uid).length ≤ 64)
    (hroom : {rid | s.HeldActively uid rid}.ncard ≤ max) :
    ∃ ids, s.getUserRolesWithAncestors uid max = some ids ∧ ids.Nodup ∧
      (∀ rid, rid ∈ ids ↔ s.HeldActively uid rid) ∧
      ∀ answers : SqlRows s, ∀ rid, rid ∈ ids ↔ rid ∈ answers.rows uid := by
  obtain ⟨ids, hids, hnodup, hexact⟩ := exists_climb hacyclic hdirect hroom
  exact ⟨ids, hids, hnodup, hexact, fun answers rid =>
    (hexact rid).trans answers.mem_rows_iff.symm⟩

/-- Where nothing is cut off, every backend lists them. -/
theorem exists_rolesWithAncestors (b : RoleBackend s) {uid max : Nat} (hacyclic : s.ParentsAcyclic)
    (hdirect : (s.userRoles.filter fun row => row.2 == uid).length ≤ 64)
    (hroom : {rid | s.HeldActively uid rid}.ncard ≤ max) :
    ∃ ids, b.rolesWithAncestors uid max = some ids ∧ ∀ rid, rid ∈ ids ↔ s.HeldActively uid rid := by
  have hquery : ∀ answers : SqlRows s, ∃ ids, some ((answers.rows uid).take max) = some ids ∧
      ∀ rid, rid ∈ ids ↔ s.HeldActively uid rid := by
    intro answers
    refine ⟨_, rfl, fun rid => ?_⟩
    have hlen : (answers.rows uid).length ≤ max :=
      (length_le_ncard (finite_heldActively uid) (answers.nodup uid)
        fun _ h => answers.mem_rows_iff.mp h).trans hroom
    rw [take_of_length_le hlen, answers.mem_rows_iff]
  cases b with
  | memory | redis =>
    obtain ⟨ids, hids, -, hexact⟩ := exists_climb hacyclic hdirect hroom
    exact ⟨ids, hids, hexact⟩
  | sqlite answers | postgres answers => exact hquery answers

theorem parentsAcyclic_of_lt
    (h : ∀ role ∈ s.roles, role.parentRoleId < role.id ∨ role.parentRoleId = 0) :
    s.ParentsAcyclic := by
  have hstep : ∀ {rid par}, s.parentOf rid = some par → par < rid := by
    intro rid par hpar
    obtain ⟨hparent, hne⟩ := filter_eq_some_iff.mp hpar
    obtain ⟨role, hrow, rfl⟩ := map_eq_some_iff.mp hparent
    have hid : role.id = rid := by simpa using find?_some hrow
    rcases h role (mem_of_find?_eq_some hrow) with hlt | hzero
    · rwa [hid] at hlt
    · simp [hzero] at hne
  have hreach : ∀ {x y}, Reaches s.parentOf x y → y ≤ x := by
    intro x y hxy
    induction hxy with
    | refl => exact Nat.le_refl x
    | tail _ hup ih => exact Nat.le_trans (Nat.le_of_lt (hstep hup)) ih
  rintro rid ⟨next, hup, hback⟩
  exact Nat.lt_irrefl rid (Nat.lt_of_le_of_lt (hreach hback) (hstep hup))

/-- Three roles, each below the one before; the user has the lowest. -/
def chainStore : Store :=
  { memOpen with
    roles := [{ id := 1, name := lit "staff", parentRoleId := 0, status := .active },
      { id := 2, name := lit "lead", parentRoleId := 1, status := .active },
      { id := 3, name := lit "admin", parentRoleId := 2, status := .active }]
    userRoles := [(3, 7)] }

theorem effectiveRoles_chainStore : ∃ ids, chainStore.getUserRolesWithAncestors 7 128 = some ids ∧
    ids.Nodup ∧ (∀ rid, rid ∈ ids ↔ chainStore.HeldActively 7 rid) ∧
    ∀ answers : SqlRows chainStore, ∀ rid, rid ∈ ids ↔ rid ∈ answers.rows 7 :=
  effectiveRoles_exact (parentsAcyclic_of_lt (by decide +kernel)) (by decide +kernel)
    ((ncard_heldActively_le 7).trans (by decide +kernel))

end Store

end SsoSystem
