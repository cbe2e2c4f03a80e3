/-
SsoSystem.Permission.WriteTheorems — whose decisions a write to the store can
change.

What a user's decisions take from the store is the resolved policy list and
the roles the user has (`SameForUser`). That a call
changes neither for other users needs the stores to be well numbered
(`StoreInv`): assignments and memberships only name ids that were already
handed out, so that a created record is not one somebody waits for.
-/
import SsoSystem.Permission.Coherence

namespace SsoSystem

open CMem DenyOverride List Option Nat Store

/-! ## §1 What a decision takes from the store -/

structure SameForUser (s s' : Store) (uid : Nat) : Prop where
  resolve : policyResolveForUser s uid 64 = policyResolveForUser s' uid 64
  hasRole : userHasRole s uid = userHasRole s' uid

variable {s s' : Store} {uid b key max : Nat} {α : Type} {m : Mutation} {l : List (Nat × Nat)}
  {r : Role}

variable {tid id a : Nat} {tt : TargetType} {P : α → Prop} {p : α → Bool}

theorem targetEntries_congr (hids : s.getTargetPolicies tt tid 64 = s'.getTargetPolicies tt tid 64)
    (hpol : ∀ a ∈ s.policyAssignments, s.policyGetById a.policyId = s'.policyGetById a.policyId) :
    targetEntries s tt tid = targetEntries s' tt tid := by
  unfold targetEntries
  rw [← hids]
  refine filterMap_congr fun pid hpid => ?_
  obtain ⟨a, ha, rfl⟩ := mem_map.mp (mem_of_mem_take hpid)
  exact hpol a (mem_filter.mp ha).1

theorem resolve_congr
    (htarget : ∀ tt tid, tt ≠ .user ∨ tid = uid → s.getTargetPolicies tt tid 64 =
      s'.getTargetPolicies tt tid 64)
    (hpol : ∀ a ∈ s.policyAssignments, s.policyGetById a.policyId = s'.policyGetById a.policyId)
    (hroles : s.getUserRoles uid 64 = s'.getUserRoles uid 64)
    (hgroups : s.getUserGroups uid 64 = s'.getUserGroups uid 64)
    (hroleAnc : ∀ r ∈ s.getUserRoles uid 64, roleGetAncestors s r 16 = roleGetAncestors s' r 16)
    (hgroupAnc : ∀ g ∈ s.getUserGroups uid 64, groupGetAncestors s g 16 = groupGetAncestors s' g 16)
      :
    policyResolveForUser s uid 64 = policyResolveForUser s' uid 64 := by
  have hflat : ∀ {tt : TargetType} {anc anc' : Nat → List Nat} {ids : List Nat}, tt ≠ .user →
      (∀ x ∈ ids, anc x = anc' x) →
      ids.flatMap (hierarchyEntries s tt anc) = ids.flatMap (hierarchyEntries s' tt anc') := by
    intro tt anc anc' ids htt hanc
    refine flatMap_congr fun x hx => ?_
    unfold hierarchyEntries
    rw [← hanc x hx]
    exact flatMap_congr fun y _ => targetEntries_congr (htarget tt y (.inl htt)) hpol
  have hentries : entries s uid = entries s' uid := by
    unfold entries
    rw [← hroles, ← hgroups, targetEntries_congr (htarget .user uid (.inr rfl)) hpol,
      hflat (by decide) hroleAnc, hflat (by decide) hgroupAnc]
  unfold policyResolveForUser
  rw [collectPolicies_eq, collectPolicies_eq, hentries]

/-! ## §2 Well numbered stores -/

/-- Ids stay below their counters wherever a later create call could turn a
dangling one into a live one, and policy ids differ modulo 256. -/
structure StoreInv (s : Store) : Prop where
  nextPid : 0 < s.nextPid
  policyIds : ∀ p ∈ s.policies, 0 < p.id ∧ p.id < s.nextPid
  policyMods : ∀ p ∈ s.policies, ∀ q ∈ s.policies, p.id % 256 = q.id % 256 → p.id = q.id
  roleIds : ∀ r ∈ s.roles, r.id < s.nextRid
  groupIds : ∀ g ∈ s.groups, g.id < s.nextGid
  assigned : ∀ a ∈ s.policyAssignments, a.policyId < s.nextPid
  userRoles : ∀ x ∈ s.userRoles, x.1 < s.nextRid
  userGroups : ∀ x ∈ s.userGroups, x.1 < s.nextGid

theorem storeInv_memOpen : StoreInv memOpen where
  nextPid := by decide
  policyIds := nofun
  policyMods := nofun
  roleIds := nofun
  groupIds := nofun
  assigned := nofun
  userRoles := nofun
  userGroups := nofun

theorem StoreInv.policyIdsNonzero (hs : StoreInv s) : s.PolicyIdsNonzero :=
  fun p hp => pos_iff_ne_zero.mp (hs.policyIds p hp).1

/-- Assignments name ids that were handed out, and a new policy gets a residue
of its own. -/
def Mutation.wellNumbered (s : Store) : Mutation → Prop
  | .roleAssignToUser rid _ => (s.roleGetById rid).isSome
  | .groupAddUser gid _ => (s.groupGetById gid).isSome
  | .policyAssignTo pid _ _ => (s.policyGetById pid).isSome
  | .policyCreate _ _ _ _ _ => ∀ p ∈ s.policies, p.id % 256 ≠ s.nextPid % 256
  | _ => True

theorem Mutation.wellNumbered_of_inDomain (hdom : m.inDomain s) : m.wellNumbered s := by
  cases m with
  | roleAssignToUser | groupAddUser | policyAssignTo => exact hdom.1
  | policyCreate name strategy effect priority rules => exact hdom
  | _ => trivial

theorem StoreInv.write (hs : StoreInv s) (hdom : m.wellNumbered s) (hw : m.storeWrite s = .ok s') :
    StoreInv s' := by
  obtain ⟨hnext, hpolicies, hmods, hroles, hgroups, hassigned, huserRoles, huserGroups⟩ := hs
  cases m with
  | userCreate | roleCreate | groupCreate | policyCreate =>
    -- the new record has the counter as its id, and the counter goes up
    obtain ⟨-, rfl⟩ := ok_of_else hw
    constructor <;> first | assumption | grind [Mutation.wellNumbered]
  | userUpdate | roleUpdate | groupUpdate | policyUpdate =>
    -- the record it takes the place of has the same id
    obtain ⟨hfound, rfl⟩ := ok_of_then hw
    obtain ⟨old, hold⟩ := isSome_iff_exists.mp hfound
    have hid := find?_some hold
    have hmem := mem_of_find?_eq_some hold
    constructor <;> first | assumption | grind [mem_replaceFirst]
  | userDelete | roleDelete | groupDelete | policyDelete =>
    -- the lists only lose entries
    obtain ⟨-, rfl⟩ := ok_of_then hw
    constructor <;> first | assumption | grind [plRmByA, plRmByB, alRmByTarget, mem_of_mem_eraseP]
  | roleAssignToUser | groupAddUser | policyAssignTo =>
    -- the id of the new entry is that of a record
    cases hw
    obtain ⟨old, hold⟩ := isSome_iff_exists.mp hdom
    have hid := find?_some hold
    have hmem := mem_of_find?_eq_some hold
    constructor <;> first | assumption | grind [assignRoleToUser, addUserToGroup, assignPolicy]
  | roleUnassignFromUser | groupRemoveUser | policyUnassignFrom =>
    cases hw
    constructor <;> first
      | assumption
      | grind [unassignRoleFromUser, removeUserFromGroup, unassignPolicy, mem_of_mem_eraseP]
  | roleAssignToGroup | roleUnassignFromGroup =>
    cases hw
    constructor <;> assumption

/-! ## §3 Whose view a write changes -/

/-- Walks that start elsewhere do not see a record that is nobody's parent. -/
theorem getAncestors_create {parent parent' : Nat → Option Nat} {n : Nat}
    (hget : ∀ x, x ≠ n → parent x = parent' x) (hpar : ∀ x p, parent x = some p → p ≠ n) :
    ∀ (max : Nat) {cur : Nat}, cur ≠ n → getAncestors parent max cur = getAncestors parent' max cur
  | 0, _, _ => rfl
  | max + 1, cur, hcur => by
    rw [getAncestors, getAncestors, ← hget cur hcur]
    cases hp : parent cur with
    | none => rfl
    | some p => simp only [getAncestors_create hget hpar max (hpar cur p hp)]

theorem plGetA_append_of_ne (hne : b ≠ key) :
    plGetA (l ++ [(a, b)]) key max = plGetA l key max := by
  unfold plGetA
  rw [filter_append]
  simp [hne]

theorem plGetA_eraseP_of_ne (hne : b ≠ key) :
    plGetA (l.eraseP fun p => p.1 == a && p.2 == b) key max = plGetA l key max := by
  unfold plGetA
  rw [filter_eraseP_of_imp]
  intro x hx
  simp only [Bool.and_eq_true, beq_iff_eq] at hx
  simpa [hx.2] using hne

theorem plGetA_plRmByB_of_ne (hne : b ≠ key) : plGetA (plRmByB l b) key max = plGetA l key max := by
  unfold plGetA plRmByB
  rw [List.filter_filter]
  congr 2
  refine List.filter_congr fun x _ => ?_
  by_cases hx : x.2 = key
  · simp [hx, Ne.symm hne]
  · simp [hx]

theorem getTargetPolicies_congr
    (h : s.policyAssignments.filter (fun a => a.targetType == tt && a.targetId == tid) =
      s'.policyAssignments.filter fun a => a.targetType == tt && a.targetId == tid) :
    s.getTargetPolicies tt tid max = s'.getTargetPolicies tt tid max := by
  unfold getTargetPolicies
  rw [h]

/-- A write that leaves roles, groups and policies alone, and this user's
memberships and targets too. -/
theorem sameForUser_of_tables (hroles : s.roles = s'.roles) (hgroups : s.groups = s'.groups)
    (hpolicies : s.policies = s'.policies) (hur : s.getUserRoles uid 64 = s'.getUserRoles uid 64)
    (hug : s.getUserGroups uid 64 = s'.getUserGroups uid 64)
    (htarget : ∀ tt tid, tt ≠ .user ∨ tid = uid → s.getTargetPolicies tt tid 64 =
      s'.getTargetPolicies tt tid 64) :
    SameForUser s s' uid where
  resolve := by
    refine resolve_congr htarget (fun a _ => ?_) hur hug (fun r _ => ?_) (fun g _ => ?_)
    · unfold policyGetById
      rw [hpolicies]
    · unfold roleGetAncestors
      rw [funext (roleGetParent_congr hroles)]
    · have hparent : s.groupGetParent = s'.groupGetParent := by
        funext id
        unfold groupGetParent groupGetById
        rw [hgroups]
      unfold groupGetAncestors
      rw [hparent]
  hasRole := userHasRole_congr hroles hur

theorem sameForUser_policyCreate (hs : StoreInv s) {p : Policy} (hw : s.policyCreate p = .ok s')
    (uid : Nat) : SameForUser s s' uid := by
  obtain ⟨-, rfl⟩ := ok_of_else hw
  refine ⟨resolve_congr (fun _ _ _ => rfl) (fun a ha => ?_) rfl rfl (fun _ _ => rfl)
    fun _ _ => rfl, userHasRole_congr rfl rfl⟩
  exact (find?_append_of_ne (f := Policy.id) (ne_of_gt (hs.assigned a ha))).symm

theorem sameForUser_groupCreate (hs : StoreInv s) {g : Group}
    (hpar : ∀ g ∈ s.groups, g.parentGroupId ≠ s.nextGid) (hw : s.groupCreate g = .ok s')
    (uid : Nat) :
    SameForUser s s' uid := by
  obtain ⟨-, rfl⟩ := ok_of_else hw
  refine ⟨resolve_congr (fun _ _ _ => rfl) (fun _ _ => rfl) rfl rfl (fun _ _ => rfl)
    fun x hx => ?_, userHasRole_congr rfl rfl⟩
  refine getAncestors_create (n := s.nextGid) (fun y hy => ?_) (fun y q hq => ?_) 16
    (Nat.ne_of_lt (hs.userGroups _ (mem_of_mem_plGetA hx)))
  · exact congrArg (Option.map Group.parentGroupId)
      (find?_append_of_ne (f := Group.id) (Ne.symm hy)).symm
  · obtain ⟨g', hg', rfl⟩ := map_eq_some_iff.mp hq
    exact hpar g' (mem_of_find?_eq_some hg')

/-- A role nobody waits for changes nobody's roles: under its own name it was
not found before and is not among the user's roles now. -/
theorem userHasRole_roleCreate (hpar : ∀ r ∈ s.roles, r.parentRoleId ≠ s.nextRid)
    (hw : s.roleCreate r = .ok s') (hown : s.nextRid ∉ s.getUserRoles uid 64)
    (hwalk : (s.getUserRolesWithAncestors uid 128).isSome) :
    userHasRole s uid = userHasRole s' uid := by
  obtain ⟨hname, rfl⟩ := ok_of_else hw
  obtain ⟨ids, hids⟩ := isSome_iff_exists.mp hwalk
  let s' : Store :=
    { s with roles := s.roles ++ [{ r with id := s.nextRid }], nextRid := s.nextRid + 1 }
  have hget : ∀ id, id ≠ s.nextRid → s.roleGetById id = s'.roleGetById id :=
    fun id hid => (find?_append_of_ne (f := Role.id) (Ne.symm hid)).symm
  obtain ⟨hids', hnew⟩ := climbAll_create hget hpar (by simp [s']) hown
    not_mem_nil hids
  funext name
  unfold userHasRole getUserRolesWithAncestors at *
  simp only [getUserRoles] at hids hids' ⊢
  rw [hids, hids']
  unfold roleGetByName
  rw [find?_append]
  cases hfound : s.roles.find? fun r => strEq r.name name with
  | some role => rfl
  | none =>
    by_cases hn : strEq r.name name = true
    · simp [hn, hnew]
    · simp [hn]

theorem resolve_roleCreate (hs : StoreInv s) (hpar : ∀ r ∈ s.roles, r.parentRoleId ≠ s.nextRid)
    (hw : s.roleCreate r = .ok s') (uid : Nat) :
    policyResolveForUser s uid 64 = policyResolveForUser s' uid 64 := by
  obtain ⟨-, rfl⟩ := ok_of_else hw
  refine resolve_congr (fun _ _ _ => rfl) (fun _ _ => rfl) rfl rfl (fun x hx => ?_)
    fun _ _ => rfl
  refine getAncestors_create (n := s.nextRid) (fun y hy => ?_)
    (fun y q hq => roleGetParent_ne hpar hq) 16
    (Nat.ne_of_lt (hs.userRoles _ (mem_of_mem_plGetA hx)))
  exact congrArg (Option.map Role.parentRoleId)
    (find?_append_of_ne (f := Role.id) (Ne.symm hy)).symm

theorem sameForUser_roleCreate (hs : StoreInv s) (hpar : ∀ r ∈ s.roles, r.parentRoleId ≠ s.nextRid)
    (hwalk : ∀ uid, (s.getUserRolesWithAncestors uid 128).isSome) (hw : s.roleCreate r = .ok s')
    (uid : Nat) : SameForUser s s' uid := by
  refine ⟨resolve_roleCreate hs hpar hw uid,
    userHasRole_roleCreate hpar hw (fun hm => ?_) (hwalk uid)⟩
  exact lt_irrefl _ (hs.userRoles _ (mem_of_mem_plGetA hm))

/-- No call changes the view of a user its invalidation does not cover. -/
theorem sameForUser_of_write (hs : StoreInv s) (hpar : m.parentsKnown s)
    (hw : m.storeWrite s = .ok s') (hnot : ¬ m.invalidation.covers uid) : SameForUser s s' uid := by
  cases m with
  | userCreate u =>
    obtain ⟨-, rfl⟩ := ok_of_else hw
    exact sameForUser_of_tables rfl rfl rfl rfl rfl fun _ _ _ => rfl
  | userUpdate u =>
    obtain ⟨-, rfl⟩ := ok_of_then hw
    exact sameForUser_of_tables rfl rfl rfl rfl rfl fun _ _ _ => rfl
  | userDelete id =>
    have hne : id ≠ uid := hnot
    obtain ⟨-, rfl⟩ := ok_of_then hw
    refine sameForUser_of_tables rfl rfl rfl (plGetA_plRmByB_of_ne hne).symm
      (plGetA_plRmByB_of_ne hne).symm fun tt tid htt => getTargetPolicies_congr ?_
    simp only [alRmByTarget, List.filter_filter]
    refine List.filter_congr fun a _ => ?_
    rcases htt with htt | rfl
    · by_cases ha : a.targetType = tt <;> simp [ha, htt]
    · by_cases ha : a.targetId = tid <;> simp [ha, Ne.symm hne]
  | roleCreate name parent => exact sameForUser_roleCreate hs hpar.1 hpar.2 hw uid
  | groupCreate name parent => exact sameForUser_groupCreate hs hpar hw uid
  | policyCreate name strategy effect priority rules => exact sameForUser_policyCreate hs hw uid
  | roleAssignToUser | roleUnassignFromUser | groupAddUser | groupRemoveUser =>
    cases hw
    refine sameForUser_of_tables rfl rfl rfl ?_ ?_ fun _ _ _ => rfl
    all_goals first
      | rfl
      | exact (plGetA_append_of_ne hnot).symm
      | exact (plGetA_eraseP_of_ne hnot).symm
  | policyAssignTo pid tt tid =>
    cases tt with
    | user =>
      have hne : tid ≠ uid := hnot
      cases hw
      refine sameForUser_of_tables rfl rfl rfl rfl rfl fun tt' tid' htt =>
        getTargetPolicies_congr ?_
      simp only [assignPolicy, List.filter_append]
      rcases htt with htt | rfl
      · simp [Ne.symm htt]
      · simp [hne]
    | _ => exact absurd trivial hnot
  | policyUnassignFrom pid tt tid =>
    cases tt with
    | user =>
      have hne : tid ≠ uid := hnot
      cases hw
      refine sameForUser_of_tables rfl rfl rfl rfl rfl fun tt' tid' htt =>
        getTargetPolicies_congr (filter_eraseP_of_imp ?_ _).symm
      intro a ha
      simp only [Bool.and_eq_true, beq_iff_eq] at ha
      rcases htt with htt | rfl
      · simp [ha.1.2, Ne.symm htt]
      · simp [ha.2, hne]
    | _ => exact absurd trivial hnot
  | _ => exact absurd trivial hnot

/-! ## §4 Which policies a write changes -/

theorem exists_policy_of_write (hw : m.storeWrite s = .ok s') {pid : Nat}
    (hinv : m.invalidation = .policy pid) : ∃ p ∈ s.policies, p.id = pid := by
  have hfind : (s.policyGetById pid).isSome → ∃ p ∈ s.policies, p.id = pid := by
    intro hsome
    obtain ⟨p, hp⟩ := isSome_iff_exists.mp hsome
    exact ⟨p, mem_of_find?_eq_some hp, by simpa using find?_some hp⟩
  cases m with
  | policyUpdate | policyDelete =>
    cases hinv
    exact hfind (ok_of_then hw).1
  | policyAssignTo pid tt tid | policyUnassignFrom pid tt tid => cases tt <;> cases hinv
  | _ => cases hinv

theorem policyGetById_of_write (hw : m.storeWrite s = .ok s')
    (hne : m.invalidation ≠ .policy id) {p : Policy} (hp : s.policyGetById id = some p) :
    s'.policyGetById id = some p := by
  cases m with
  | policyCreate name strategy effect priority rules =>
    obtain ⟨-, rfl⟩ := ok_of_else hw
    unfold policyGetById at hp ⊢
    rw [find?_append, hp]
    rfl
  | policyUpdate q =>
    obtain ⟨-, rfl⟩ := ok_of_then hw
    have hq : q.id ≠ id := fun he => hne (he ▸ rfl)
    exact (find?_replaceFirst_of_ne (f := Policy.id) hq s.policies).trans hp
  | policyDelete d =>
    obtain ⟨-, rfl⟩ := ok_of_then hw
    have hd : d ≠ id := fun he => hne (he ▸ rfl)
    exact (find?_eraseP_of_ne (f := Policy.id) hd s.policies).trans hp
  | userCreate _ | userUpdate _ | userDelete _ | roleCreate _ _ | roleUpdate _ | roleDelete _
  | groupCreate _ _ | groupUpdate _ | groupDelete _ =>
    simp only [Mutation.storeWrite, userCreate, userUpdate, userDelete,
      roleCreate, roleUpdate, roleDelete, groupCreate, groupUpdate, groupDelete] at hw
    split at hw <;> cases hw
    exact hp
  | _ => cases hw; exact hp

end SsoSystem
