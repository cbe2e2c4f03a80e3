/-
SsoSystem.Storage.IntegrityTheorems — referential integrity of the in-memory
store: every membership, role grant and policy assignment names records that
exist.

The tables are looked at through the ids of their records. Two deletes do not
clean up: `mem_group_delete` clears the pairs whose role or user has the group's
id instead of those of the group, and `mem_policy_delete` clears nothing.
-/
import SsoSystem.Lib.Run
import SsoSystem.Storage.MemoryTheorems

namespace SsoSystem

open CMem Run List Option Store

/-! ## §1 The property -/

variable (s : Store) (w : StoreWrite)

/-- A write that is refused leaves the store. -/
def StoreWrite.step : Option Store :=
  match w.apply s with
  | .ok s' => some s'
  | .error _ => some s

/-- Assignments are made between records that exist at that moment. -/
def StoreWrite.AssignsExisting : StoreWrite → Prop
  | .assignRoleToUser rid uid => (s.roleGetById rid).isSome ∧ (s.userGetById uid).isSome
  | .assignRoleToGroup rid gid => (s.roleGetById rid).isSome ∧ (s.groupGetById gid).isSome
  | .addUserToGroup gid uid => (s.groupGetById gid).isSome ∧ (s.userGetById uid).isSome
  | .assignPolicy pid tt tid => (s.policyGetById pid).isSome ∧ s.targetExists tt tid
  | _ => True

/-- Every row names records that exist. -/
structure RowsHold (s : Store) : Prop where
  userRoles : ∀ row ∈ s.userRoles, (s.roleGetById row.1).isSome ∧ (s.userGetById row.2).isSome
  roleGroups : ∀ row ∈ s.roleGroups, (s.roleGetById row.1).isSome ∧ (s.groupGetById row.2).isSome
  userGroups : ∀ row ∈ s.userGroups, (s.groupGetById row.1).isSome ∧ (s.userGetById row.2).isSome
  assignments : ∀ a ∈ s.policyAssignments,
    (s.policyGetById a.policyId).isSome ∧ s.targetExists a.targetType a.targetId

/-- The queries find only records that exist, about records that exist. -/
structure QueriesHold (s : Store) : Prop where
  userRoles : ∀ uid max, ∀ rid ∈ s.getUserRoles uid max,
    (s.roleGetById rid).isSome ∧ (s.userGetById uid).isSome
  roleUsers : ∀ rid max, ∀ uid ∈ s.getRoleUsers rid max,
    (s.roleGetById rid).isSome ∧ (s.userGetById uid).isSome
  ancestors : ∀ uid max ids, s.getUserRolesWithAncestors uid max = some ids →
    ∀ rid ∈ ids, (s.roleGetById rid).isSome
  userGroups : ∀ uid max, ∀ gid ∈ s.getUserGroups uid max,
    (s.groupGetById gid).isSome ∧ (s.userGetById uid).isSome
  groupUsers : ∀ gid max, ∀ uid ∈ s.getGroupUsers gid max,
    (s.groupGetById gid).isSome ∧ (s.userGetById uid).isSome
  policyTargets : ∀ pid tt max, ∀ tid ∈ s.getPolicyTargets pid tt max,
    (s.policyGetById pid).isSome ∧ s.targetExists tt tid
  targetPolicies : ∀ tt tid max, ∀ pid ∈ s.getTargetPolicies tt tid max,
    (s.policyGetById pid).isSome ∧ s.targetExists tt tid

structure ReferencesHold (s : Store) : Prop where
  rows : RowsHold s
  queries : QueriesHold s

/-- A deleted group stands in no pair but with a role or user of the same number; a deleted
policy is assigned to nothing. -/
def StoreWrite.DeletesUnreferenced : StoreWrite → Prop
  | .groupDelete id => (∀ row ∈ s.roleGroups, row.2 = id → row.1 = id) ∧
      ∀ row ∈ s.userGroups, row.1 = id → row.2 = id
  | .policyDelete id => ∀ a ∈ s.policyAssignments, a.policyId ≠ id
  | _ => True

instance : Decidable (w.AssignsExisting s) := by
  cases w <;> dsimp only [StoreWrite.AssignsExisting] <;> infer_instance

instance : Decidable (w.DeletesUnreferenced s) := by
  cases w <;> dsimp only [StoreWrite.DeletesUnreferenced] <;> infer_instance

/-! ## §2 Ids -/

section Ids

variable {α : Type} {f : α → Nat}

theorem isSome_find?_iff {l : List α} {id : Nat} :
    (l.find? fun y => f y == id).isSome ↔ id ∈ l.map f := by
  rw [List.find?_isSome, List.mem_map]
  simp only [beq_iff_eq]

/-- An update keeps the ids. -/
theorem map_replaceFirst (x : α) : ∀ l : List α,
    (replaceFirst (fun y => f y == f x) x l).map f = l.map f
  | [] => rfl
  | y :: ys => by
    rw [replaceFirst]
    split
    · next hy => rw [List.map_cons, List.map_cons, beq_iff_eq.mp hy]
    · rw [List.map_cons, List.map_cons, map_replaceFirst x ys]

/-- A deletion takes one id away. -/
theorem map_eraseP (id : Nat) : ∀ l : List α,
    (l.eraseP fun y => f y == id).map f = (l.map f).erase id
  | [] => rfl
  | y :: ys => by
    by_cases hy : f y = id
    · rw [List.eraseP_cons_of_pos (by simpa using hy), List.map_cons, hy, List.erase_cons_head]
    · rw [List.eraseP_cons_of_neg (by simpa using hy), List.map_cons, List.map_cons,
        List.erase_cons_tail (by simpa using hy), map_eraseP id ys]

end Ids

/-- The ids of the records. -/
def Store.userIds (s : Store) : List Nat := s.users.map User.id
def Store.roleIds (s : Store) : List Nat := s.roles.map Role.id
def Store.groupIds (s : Store) : List Nat := s.groups.map Group.id
def Store.policyIds (s : Store) : List Nat := s.policies.map Policy.id

/-- The ids of the records of a kind. -/
def Store.targetIds (s : Store) : TargetType → List Nat
  | .user => s.userIds
  | .role => s.roleIds
  | .group => s.groupIds
  | .other _ => []

variable {s : Store}

/-- `target_exists`, in terms of the ids. -/
theorem targetExists_iff {tt : TargetType} {id : Nat} :
    s.targetExists tt id = true ↔ id ∈ s.targetIds tt := by
  cases tt with
  | user | role | group => exact isSome_find?_iff
  | other code => simp [targetExists, targetIds]

/-! ## §3 Tables over ids -/

/-- The pairs name ids of the two lists. -/
def PairsExist (as bs : List Nat) (l : List (Nat × Nat)) : Prop :=
    ∀ row ∈ l, row.1 ∈ as ∧ row.2 ∈ bs

section Pairs

variable {as as' bs bs' : List Nat} {l l' : List (Nat × Nat)}

theorem PairsExist.mono (h : PairsExist as bs l) (has : ∀ a ∈ as, a ∈ as')
    (hbs : ∀ b ∈ bs, b ∈ bs') (hl : ∀ row ∈ l', row ∈ l) : PairsExist as' bs' l' :=
  fun row hrow => ⟨has _ (h row (hl row hrow)).1, hbs _ (h row (hl row hrow)).2⟩

/-- A link between two that exist may be added. -/
theorem PairsExist.append (h : PairsExist as bs l) {a b : Nat} (ha : a ∈ as) (hb : b ∈ bs) :
    PairsExist as bs (l ++ [(a, b)]) := by
  intro row hrow
  rcases mem_append.mp hrow with hold | hnew
  · exact h row hold
  · cases mem_singleton.mp hnew
    exact ⟨ha, hb⟩

/-- A deletion that removes its links by the right column keeps the rest. -/
theorem PairsExist.rmByA (h : PairsExist as bs l) (id : Nat) :
    PairsExist (as.erase id) bs (plRmByA l id) := by
  intro row hrow
  obtain ⟨hmem, hne⟩ := mem_filter.mp hrow
  have hne' : row.1 ≠ id := by simpa using hne
  exact ⟨(mem_erase_of_ne hne').mpr (h row hmem).1, (h row hmem).2⟩

theorem PairsExist.rmByB (h : PairsExist as bs l) (id : Nat) :
    PairsExist as (bs.erase id) (plRmByB l id) := by
  intro row hrow
  obtain ⟨hmem, hne⟩ := mem_filter.mp hrow
  have hne' : row.2 ≠ id := by simpa using hne
  exact ⟨(h row hmem).1, (mem_erase_of_ne hne').mpr (h row hmem).2⟩

/-- Clearing the other column: right only for pairs that have the id in both. -/
theorem pairsExist_rmByA_iff (h : PairsExist as bs l) (hbs : bs.Nodup) (id : Nat) :
    PairsExist as (bs.erase id) (plRmByA l id) ↔ ∀ row ∈ l, row.2 = id → row.1 = id := by
  constructor
  · intro hafter row hrow hid
    by_contra hne
    have hkept := hafter row (mem_filter.mpr ⟨hrow, by simpa using hne⟩)
    exact (hbs.mem_erase_iff.mp hkept.2).1 hid
  · intro honly row hrow
    obtain ⟨hmem, hne⟩ := mem_filter.mp hrow
    refine ⟨(h row hmem).1, hbs.mem_erase_iff.mpr ⟨fun hid => ?_, (h row hmem).2⟩⟩
    simp [honly row hmem hid] at hne

/-- One that removes them by the other column does so only if it has none there. -/
theorem pairsExist_rmByB_iff (h : PairsExist as bs l) (has : as.Nodup) (id : Nat) :
    PairsExist (as.erase id) bs (plRmByB l id) ↔ ∀ row ∈ l, row.1 = id → row.2 = id := by
  constructor
  · intro hafter row hrow hid
    by_contra hne
    have hkept := hafter row (mem_filter.mpr ⟨hrow, by simpa using hne⟩)
    exact (has.mem_erase_iff.mp hkept.1).1 hid
  · intro honly row hrow
    obtain ⟨hmem, hne⟩ := mem_filter.mp hrow
    refine ⟨has.mem_erase_iff.mpr ⟨fun hid => ?_, (h row hmem).1⟩, (h row hmem).2⟩
    simp [honly row hmem hid] at hne

end Pairs

/-- The assignments name ids of the policies and of the targets of their kind. -/
def AssignedExist (ps : List Nat) (ts : TargetType → List Nat) (l : List Assignment) : Prop :=
  ∀ a ∈ l, a.policyId ∈ ps ∧ a.targetId ∈ ts a.targetType

section Assigned

variable {ps ps' : List Nat} {ts ts' : TargetType → List Nat} {l l' : List Assignment}

theorem AssignedExist.mono (h : AssignedExist ps ts l) (hps : ∀ p ∈ ps, p ∈ ps')
    (hts : ∀ tt, ∀ t ∈ ts tt, t ∈ ts' tt) (hl : ∀ a ∈ l', a ∈ l) : AssignedExist ps' ts' l' :=
  fun a ha => ⟨hps _ (h a (hl a ha)).1, hts _ _ (h a (hl a ha)).2⟩

/-- The assignments of a target go with it. -/
theorem AssignedExist.rmByTarget (h : AssignedExist ps ts l) {tt : TargetType} {id : Nat}
    (hgone : ts' tt = (ts tt).erase id) (hkept : ∀ tt', tt' ≠ tt → ts' tt' = ts tt') :
    AssignedExist ps ts' (alRmByTarget l tt id) := by
  intro a ha
  obtain ⟨hmem, hne⟩ := mem_filter.mp ha
  refine ⟨(h a hmem).1, ?_⟩
  by_cases htt : a.targetType = tt
  · have hid : a.targetId ≠ id := fun hid => by simp [htt, hid] at hne
    rw [htt, hgone]
    exact (mem_erase_of_ne hid).mpr (htt ▸ (h a hmem).2)
  · rw [hkept _ htt]
    exact (h a hmem).2

end Assigned

/-! ## §4 The store over its ids -/

/-- `RowsHold`, over the ids. -/
structure IdsHold (s : Store) : Prop where
  userRoles : PairsExist s.roleIds s.userIds s.userRoles
  roleGroups : PairsExist s.roleIds s.groupIds s.roleGroups
  userGroups : PairsExist s.groupIds s.userIds s.userGroups
  assignments : AssignedExist s.policyIds s.targetIds s.policyAssignments

/-- The rows, told from the ids alone. -/
theorem rowsHold_iff : RowsHold s ↔ IdsHold s := by
  constructor
  · intro h
    exact
      { userRoles := fun row hrow =>
          (h.userRoles row hrow).imp isSome_find?_iff.mp isSome_find?_iff.mp
        roleGroups := fun row hrow =>
          (h.roleGroups row hrow).imp isSome_find?_iff.mp isSome_find?_iff.mp
        userGroups := fun row hrow =>
          (h.userGroups row hrow).imp isSome_find?_iff.mp isSome_find?_iff.mp
        assignments := fun a ha =>
          (h.assignments a ha).imp isSome_find?_iff.mp targetExists_iff.mp }
  · intro h
    exact
      { userRoles := fun row hrow =>
          (h.userRoles row hrow).imp isSome_find?_iff.mpr isSome_find?_iff.mpr
        roleGroups := fun row hrow =>
          (h.roleGroups row hrow).imp isSome_find?_iff.mpr isSome_find?_iff.mpr
        userGroups := fun row hrow =>
          (h.userGroups row hrow).imp isSome_find?_iff.mpr isSome_find?_iff.mpr
        assignments := fun a ha =>
          (h.assignments a ha).imp isSome_find?_iff.mpr targetExists_iff.mpr }

/-! ## §5 Queries -/

theorem addDistinct_exist {ids : List Nat} {rid : Nat} {r : Role}
    (hids : ∀ rid ∈ ids, (s.roleGetById rid).isSome) (hr : s.activeRole rid = some r) :
    ∀ rid' ∈ Store.addDistinct ids rid, (s.roleGetById rid').isSome := by
  have hfound : (s.roleGetById rid).isSome := by
    unfold activeRole at hr
    exact isSome_of_mem (filter_eq_some_iff.mp hr).1
  intro rid' hmem
  unfold addDistinct at hmem
  split at hmem
  · exact hids rid' hmem
  · rcases mem_append.mp hmem with hold | hnew
    · exact hids rid' hold
    · rw [mem_singleton.mp hnew]
      exact hfound

/-- The climb collects roles that exist. -/
theorem climb_exist {m : Nat} : ∀ {fuel cur : Nat} {ids res : List Nat},
    (∀ rid ∈ ids, (s.roleGetById rid).isSome) → s.climb m fuel cur ids = some res →
    ∀ rid ∈ res, (s.roleGetById rid).isSome
  | 0, cur, ids, res, hids, hc => by
    rw [Store.climb] at hc
    split at hc
    · cases hc
    · cases hc
      exact hids
  | fuel + 1, cur, ids, res, hids, hc => by
    rw [Store.climb] at hc
    split at hc
    · split at hc
      · cases hc
        exact hids
      · next par _ =>
        split at hc
        · cases hc
          exact hids
        · split at hc
          · cases hc
            exact hids
          · next r hr => exact climb_exist (addDistinct_exist hids hr) hc
    · cases hc
      exact hids

theorem climbAll_exist {m : Nat} {ds ids res : List Nat}
    (hids : ∀ rid ∈ ids, (s.roleGetById rid).isSome) (hc : s.climbAll m ds ids = some res) :
    ∀ rid ∈ res, (s.roleGetById rid).isSome := by
  induction ds generalizing ids with
  | nil =>
    cases hc
    exact hids
  | cons d ds ih =>
    rw [climbAll] at hc
    split at hc
    · split at hc
      · exact ih hids hc
      · next r hr =>
        split at hc
        · cases hc
        · next ids' hclimb => exact ih (climb_exist (addDistinct_exist hids hr) hclimb) hc
    · cases hc
      exact hids

/-- If the rows are right, so are the queries. -/
theorem RowsHold.queriesHold (h : RowsHold s) : QueriesHold s where
  userRoles _ _ _ hmem := h.userRoles _ (mem_of_mem_plGetA hmem)
  roleUsers _ _ _ hmem := h.userRoles _ (mem_of_mem_plGetB hmem)
  ancestors _ _ _ hq := climbAll_exist (fun _ hmem => absurd hmem not_mem_nil) hq
  userGroups _ _ _ hmem := h.userGroups _ (mem_of_mem_plGetA hmem)
  groupUsers _ _ _ hmem := h.userGroups _ (mem_of_mem_plGetB hmem)
  policyTargets pid tt _ tid hmem := by
    obtain ⟨a, ha, rfl⟩ := mem_map.mp (mem_of_mem_take hmem)
    obtain ⟨hrow, hkey⟩ := mem_filter.mp ha
    simp only [Bool.and_eq_true, beq_iff_eq] at hkey
    rw [← hkey.1, ← hkey.2]
    exact h.assignments a hrow
  targetPolicies tt tid _ pid hmem := by
    obtain ⟨a, ha, rfl⟩ := mem_map.mp (mem_of_mem_take hmem)
    obtain ⟨hrow, hkey⟩ := mem_filter.mp ha
    simp only [Bool.and_eq_true, beq_iff_eq] at hkey
    rw [← hkey.1, ← hkey.2]
    exact h.assignments a hrow

/-- What is promised comes down to the ids. -/
theorem referencesHold_iff_idsHold : ReferencesHold s ↔ IdsHold s :=
  ⟨fun h => rowsHold_iff.mp h.rows, fun h => ⟨rowsHold_iff.mpr h, (rowsHold_iff.mpr h).queriesHold⟩⟩

/-! ## §6 One write -/

variable {s' : Store}

/-- More ids and fewer rows do no harm. -/
theorem IdsHold.mono (h : IdsHold s) (hu : ∀ id ∈ s.userIds, id ∈ s'.userIds)
    (hr : ∀ id ∈ s.roleIds, id ∈ s'.roleIds) (hg : ∀ id ∈ s.groupIds, id ∈ s'.groupIds)
    (hp : ∀ id ∈ s.policyIds, id ∈ s'.policyIds) (hur : ∀ row ∈ s'.userRoles, row ∈ s.userRoles)
    (hrg : ∀ row ∈ s'.roleGroups, row ∈ s.roleGroups)
    (hug : ∀ row ∈ s'.userGroups, row ∈ s.userGroups)
    (has : ∀ a ∈ s'.policyAssignments, a ∈ s.policyAssignments) : IdsHold s' where
  userRoles := h.userRoles.mono hr hu hur
  roleGroups := h.roleGroups.mono hr hg hrg
  userGroups := h.userGroups.mono hg hu hug
  assignments := by
    refine h.assignments.mono hp (fun tt => ?_) has
    cases tt with
    | user => exact hu
    | role => exact hr
    | group => exact hg
    | other code => exact fun _ hid => hid

/-- The ids of groups and policies are different, and below their counters. The counters are
natural numbers, which is right for fewer than 2^64 creates. -/
structure IdsFresh (s : Store) : Prop where
  groups : s.groupIds.Nodup
  policies : s.policyIds.Nodup
  nextGid : ∀ id ∈ s.groupIds, id < s.nextGid
  nextPid : ∀ id ∈ s.policyIds, id < s.nextPid

theorem nodup_append_next {ids : List Nat} {next : Nat} (hnodup : ids.Nodup)
    (hlt : ∀ id ∈ ids, id < next) :
    (ids ++ [next]).Nodup ∧ ∀ id ∈ ids ++ [next], id < next + 1 := by
  constructor
  · refine nodup_append.mpr ⟨hnodup, pairwise_singleton _ next, ?_⟩
    intro id hid next' hnext
    rw [mem_singleton.mp hnext]
    exact Nat.ne_of_lt (hlt id hid)
  · intro id hid
    rcases mem_append.mp hid with hold | hnew
    · exact Nat.lt_succ_of_lt (hlt id hold)
    · rw [mem_singleton.mp hnew]
      exact Nat.lt_succ_self next

inductive EntityKind where
  | user | role | group | policy
  deriving DecidableEq, Repr

def Store.ids (s : Store) : EntityKind → List Nat
  | .user => s.userIds
  | .role => s.roleIds
  | .group => s.groupIds
  | .policy => s.policyIds

def Store.nextId (s : Store) : EntityKind → Nat
  | .user => s.nextUid
  | .role => s.nextRid
  | .group => s.nextGid
  | .policy => s.nextPid

/-- What a write does to the ids of one kind: nothing, hand out the next one, or drop one. -/
inductive IdsMove (s s' : Store) (k : EntityKind) : Prop where
  | same (hids : s'.ids k = s.ids k) (hnext : s'.nextId k = s.nextId k)
  | create (hids : s'.ids k = s.ids k ++ [s.nextId k]) (hnext : s'.nextId k = s.nextId k + 1)
  | delete (id : Nat) (hids : s'.ids k = (s.ids k).erase id) (hnext : s'.nextId k = s.nextId k)

variable {w : StoreWrite}

/-- A write adds the next id, takes one away, or keeps them. -/
theorem idsMove_of_apply (hw : w.apply s = .ok s') (k : EntityKind) : IdsMove s s' k := by
  cases w with
  | userCreate | roleCreate | groupCreate | policyCreate =>
    obtain ⟨-, rfl⟩ := ok_of_else hw
    cases k <;> first | exact .same rfl rfl | exact .create (map_append ..) rfl
  | userUpdate | roleUpdate | groupUpdate | policyUpdate =>
    obtain ⟨-, rfl⟩ := ok_of_then hw
    cases k <;> first | exact .same rfl rfl | exact .same (map_replaceFirst _ _) rfl
  | userDelete | roleDelete | groupDelete | policyDelete =>
    obtain ⟨-, rfl⟩ := ok_of_then hw
    cases k <;> first | exact .same rfl rfl | exact .delete _ (map_eraseP _ _) rfl
  | _ =>
    cases hw
    cases k <;> exact .same rfl rfl

/-- In each of these cases the ids stay apart. -/
theorem IdsMove.below {k : EntityKind} (h : IdsMove s s' k)
    (hids : (s.ids k).Nodup ∧ ∀ id ∈ s.ids k, id < s.nextId k) :
    (s'.ids k).Nodup ∧ ∀ id ∈ s'.ids k, id < s'.nextId k := by
  cases h with
  | same heq hnext =>
    rw [heq, hnext]
    exact hids
  | create heq hnext =>
    rw [heq, hnext]
    exact nodup_append_next hids.1 hids.2
  | delete id heq hnext =>
    rw [heq, hnext]
    exact ⟨hids.1.erase id, fun i hi => hids.2 i (mem_of_mem_erase hi)⟩

/-- So every write keeps fresh ids fresh. -/
theorem IdsFresh.of_apply (h : IdsFresh s) (hw : w.apply s = .ok s') : IdsFresh s' := by
  obtain ⟨hgroups, hnextGid⟩ := (idsMove_of_apply hw .group).below ⟨h.groups, h.nextGid⟩
  obtain ⟨hpolicies, hnextPid⟩ := (idsMove_of_apply hw .policy).below ⟨h.policies, h.nextPid⟩
  exact ⟨hgroups, hpolicies, hnextGid, hnextPid⟩

theorem mem_map_append {α : Type} {f : α → Nat} {l : List α} (x : α) {id : Nat}
    (hid : id ∈ l.map f) : id ∈ (l ++ [x]).map f := by
  rw [map_append]
  exact mem_append_left _ hid

theorem mem_map_replaceFirst {α : Type} {f : α → Nat} {l : List α} (x : α) {id : Nat}
    (hid : id ∈ l.map f) : id ∈ (replaceFirst (fun y => f y == f x) x l).map f := by
  rw [map_replaceFirst]
  exact hid

/-- The writes that keep the references, whatever they meet. -/
theorem IdsHold.of_apply (h : IdsHold s)
    (hdom : w.AssignsExisting s) (hgroup : ∀ id, w ≠ .groupDelete id)
    (hpolicy : ∀ id, w ≠ .policyDelete id) (hw : w.apply s = .ok s') : IdsHold s' := by
  have hid : ∀ {α : Type} {l : List α}, ∀ x ∈ l, x ∈ l := fun _ hx => hx
  cases w with
  | userCreate | roleCreate | groupCreate | policyCreate =>
    obtain ⟨-, rfl⟩ := ok_of_else hw
    apply h.mono <;> first | exact hid | exact fun _ => mem_map_append _
  | userUpdate | roleUpdate | groupUpdate | policyUpdate =>
    obtain ⟨-, rfl⟩ := ok_of_then hw
    apply h.mono <;> first | exact hid | exact fun _ => mem_map_replaceFirst _
  | userDelete id =>
    obtain ⟨-, rfl⟩ := ok_of_then hw
    have husers : (s.users.eraseP fun u => u.id == id).map User.id = s.userIds.erase id :=
      map_eraseP id s.users
    refine ⟨?_, h.roleGroups, ?_, ?_⟩
    · unfold userIds
      rw [husers]
      exact h.userRoles.rmByB id
    · unfold userIds
      rw [husers]
      exact h.userGroups.rmByB id
    · refine h.assignments.rmByTarget husers fun tt htt => ?_
      cases tt <;> first | rfl | exact absurd rfl htt
  | roleDelete id =>
    obtain ⟨-, rfl⟩ := ok_of_then hw
    have hroles : (s.roles.eraseP fun r => r.id == id).map Role.id = s.roleIds.erase id :=
      map_eraseP id s.roles
    refine ⟨?_, ?_, h.userGroups, ?_⟩
    · unfold roleIds
      rw [hroles]
      exact h.userRoles.rmByA id
    · unfold roleIds
      rw [hroles]
      exact h.roleGroups.rmByA id
    · refine h.assignments.rmByTarget hroles fun tt htt => ?_
      cases tt <;> first | rfl | exact absurd rfl htt
  | groupDelete id => exact absurd rfl (hgroup id)
  | policyDelete id => exact absurd rfl (hpolicy id)
  | assignRoleToUser | assignRoleToGroup | addUserToGroup =>
    cases hw
    obtain ⟨huserRoles, hroleGroups, huserGroups, hassignments⟩ := h
    constructor <;> first
      | assumption
      | exact PairsExist.append (by assumption) (isSome_find?_iff.mp hdom.1)
          (isSome_find?_iff.mp hdom.2)
  | assignPolicy pid tt tid =>
    cases hw
    refine { h with assignments := fun a ha => ?_ }
    rcases mem_append.mp ha with hold | hnew
    · exact h.assignments a hold
    · cases mem_singleton.mp hnew
      exact ⟨isSome_find?_iff.mp hdom.1, targetExists_iff.mp hdom.2⟩
  | unassignRoleFromUser | unassignRoleFromGroup | removeUserFromGroup | unassignPolicy =>
    cases hw
    apply h.mono <;> first | exact hid | exact fun _ => mem_of_mem_eraseP

/-- The deletion of a group keeps them exactly when no pair outlives the group. -/
theorem idsHold_groupDelete_iff (h : IdsHold s) (hfresh : IdsFresh s) {id : Nat}
    (hw : s.groupDelete id = .ok s') :
    IdsHold s' ↔ StoreWrite.DeletesUnreferenced s (.groupDelete id) := by
  obtain ⟨-, rfl⟩ := ok_of_then hw
  have hgroups : (s.groups.eraseP fun g => g.id == id).map Group.id = s.groupIds.erase id :=
    map_eraseP id s.groups
  rw [StoreWrite.DeletesUnreferenced, ← pairsExist_rmByA_iff h.roleGroups hfresh.groups,
    ← pairsExist_rmByB_iff h.userGroups hfresh.groups]
  constructor
  · intro hafter
    exact ⟨hgroups ▸ hafter.roleGroups, hgroups ▸ hafter.userGroups⟩
  · rintro ⟨hrg, hug⟩
    refine ⟨h.userRoles, ?_, ?_, ?_⟩
    · unfold groupIds
      rw [hgroups]
      exact hrg
    · unfold groupIds
      rw [hgroups]
      exact hug
    · refine h.assignments.rmByTarget hgroups fun tt htt => ?_
      cases tt with
      | user | role | other => rfl
      | group => exact absurd rfl htt

/-- The deletion of a policy keeps them exactly when nothing is assigned to it. -/
theorem idsHold_policyDelete_iff (h : IdsHold s) (hfresh : IdsFresh s) {id : Nat}
    (hw : s.policyDelete id = .ok s') :
    IdsHold s' ↔ StoreWrite.DeletesUnreferenced s (.policyDelete id) := by
  obtain ⟨-, rfl⟩ := ok_of_then hw
  have hpolicies : (s.policies.eraseP fun p => p.id == id).map Policy.id = s.policyIds.erase id :=
    map_eraseP id s.policies
  constructor
  · intro hafter a ha hid
    have hgone : a.policyId ∈ s.policyIds.erase id := hpolicies ▸ (hafter.assignments a ha).1
    rw [hid] at hgone
    exact hfresh.policies.not_mem_erase hgone
  · intro hunassigned
    refine ⟨h.userRoles, h.roleGroups, h.userGroups, fun a ha => ⟨?_, (h.assignments a ha).2⟩⟩
    show a.policyId ∈ (s.policies.eraseP fun p => p.id == id).map Policy.id
    rw [hpolicies]
    exact (mem_erase_of_ne (hunassigned a ha)).mpr (h.assignments a ha).1

/-- A write that is refused deletes nothing that is referenced: what it names is not there. -/
theorem deletesUnreferenced_of_error (h : IdsHold s) {err : SsoError}
    (hw : w.apply s = .error err) : w.DeletesUnreferenced s := by
  cases w with
  | groupDelete id =>
    have hnone : id ∉ s.groupIds := by
      intro hmem
      have hsome : (s.groupGetById id).isSome := isSome_find?_iff.mpr hmem
      simp only [StoreWrite.apply, groupDelete, if_pos hsome] at hw
      cases hw
    exact ⟨fun row hrow hid => absurd (hid ▸ (h.roleGroups row hrow).2) hnone,
      fun row hrow hid => absurd (hid ▸ (h.userGroups row hrow).1) hnone⟩
  | policyDelete id =>
    have hnone : id ∉ s.policyIds := by
      intro hmem
      have hsome : (s.policyGetById id).isSome := isSome_find?_iff.mpr hmem
      simp only [StoreWrite.apply, policyDelete, if_pos hsome] at hw
      cases hw
    exact fun a ha hid => hnone (hid ▸ (h.assignments a ha).1)
  | _ => trivial

/-- One write keeps the references exactly if it deletes nothing that is still referred to. -/
theorem idsHold_step_iff (h : IdsHold s) (hfresh : IdsFresh s) (hdom : w.AssignsExisting s) :
    (∀ s', w.step s = some s' → IdsHold s') ↔ w.DeletesUnreferenced s := by
  unfold StoreWrite.step
  cases hw : w.apply s with
  | error err =>
    refine ⟨fun _ => deletesUnreferenced_of_error h hw, fun _ s' hs' => ?_⟩
    cases hs'
    exact h
  | ok t =>
    simp only [some.injEq, forall_eq']
    by_cases hgroup : ∃ id, w = .groupDelete id
    · obtain ⟨id, rfl⟩ := hgroup
      exact idsHold_groupDelete_iff h hfresh hw
    by_cases hpolicy : ∃ id, w = .policyDelete id
    · obtain ⟨id, rfl⟩ := hpolicy
      exact idsHold_policyDelete_iff h hfresh hw
    have hkept : IdsHold t :=
      h.of_apply hdom (fun id hid => hgroup ⟨id, hid⟩) (fun id hid => hpolicy ⟨id, hid⟩) hw
    refine iff_of_true hkept ?_
    cases w with
    | groupDelete id => exact absurd ⟨id, rfl⟩ hgroup
    | policyDelete id => exact absurd ⟨id, rfl⟩ hpolicy
    | _ => trivial

/-! ## §7 Runs -/

theorem idsHold_memOpen : IdsHold memOpen where
  userRoles _ hrow := absurd hrow not_mem_nil
  roleGroups _ hrow := absurd hrow not_mem_nil
  userGroups _ hrow := absurd hrow not_mem_nil
  assignments _ ha := absurd ha not_mem_nil

theorem idsFresh_memOpen : IdsFresh memOpen where
  groups := List.Pairwise.nil
  policies := List.Pairwise.nil
  nextGid _ hid := absurd hid not_mem_nil
  nextPid _ hid := absurd hid not_mem_nil

/-- Every store of a run keeps its references exactly when no group or policy is deleted while
something names it. -/
theorem referencesHold_iff {ws : List StoreWrite}
    (hdom : Along StoreWrite.step (fun s w => w.AssignsExisting s) ws memOpen) :
    Along StoreWrite.step (fun s w => ∀ s', w.step s = some s' → ReferencesHold s') ws memOpen ↔
      Along StoreWrite.step (fun s w => w.DeletesUnreferenced s) ws memOpen := by
  refine along_iff_along (fun s => IdsHold s ∧ IdsFresh s) ?_ ?_
    ⟨idsHold_memOpen, idsFresh_memOpen⟩ hdom
  · rintro s w ⟨h, hfresh⟩ hw
    simp only [referencesHold_iff_idsHold]
    exact idsHold_step_iff h hfresh hw
  · rintro s w s' ⟨-, hfresh⟩ - hkept hstep
    refine ⟨referencesHold_iff_idsHold.mp (hkept s' hstep), ?_⟩
    unfold StoreWrite.step at hstep
    split at hstep
    · next hw =>
      cases hstep
      exact hfresh.of_apply hw
    · cases hstep
      exact hfresh

/-- Two users and a group, of which the second is a member. -/
def memberWrites : List StoreWrite :=
  [.userCreate { id := 0, username := lit "ada", phone := [], status := .active },
    .userCreate { id := 0, username := lit "bob", phone := [], status := .active },
    .groupCreate { id := 0, name := lit "staff", parentGroupId := 0, status := .active },
    .addUserToGroup 1 2]

/-- The member leaves before the group is deleted. -/
theorem memberWrites_left_hold :
    Along StoreWrite.step (fun s w => ∀ s', w.step s = some s' → ReferencesHold s')
      (memberWrites ++ [.removeUserFromGroup 1 2, .groupDelete 1]) memOpen :=
  (referencesHold_iff (by decide +kernel)).mpr (by decide +kernel)

/-- The member of a deleted group stays its member. -/
theorem memberWrites_deleted_dangles :
    Along StoreWrite.step (fun s w => w.AssignsExisting s) (memberWrites ++ [.groupDelete 1])
      memOpen ∧
    ∃ s, run StoreWrite.step (memberWrites ++ [.groupDelete 1]) memOpen = some s ∧
      s.getUserGroups 2 16 = [1] ∧ ¬ ReferencesHold s := by
  refine ⟨by decide +kernel, exists_some_of_any (P := fun s => s.getUserGroups 2 16 = [1] ∧
    s.groupGetById 1 = none) (by decide +kernel) ?_⟩
  rintro s - ⟨hmember, hgone⟩
  refine ⟨hmember, fun hold => ?_⟩
  have hexists := (hold.queries.userGroups 2 16 1 (by rw [hmember]; exact mem_singleton_self 1)).1
  rw [hgone] at hexists
  cases hexists

end SsoSystem
