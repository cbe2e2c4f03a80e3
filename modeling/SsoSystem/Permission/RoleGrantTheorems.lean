/-
SsoSystem.Permission.RoleGrantTheorems — two walks over the role hierarchy,
and the table that neither reads.

Policy resolution (src/policy.c) takes the roles a user has been given and up
to 16 ancestors of each, whatever their status; the role strategy asks the
storage backend, which passes over inactive roles and stops at them.

Both start from the roles given to the user; nothing reads the roles given to a
group. Where no array of the code cuts anything off (`WithinLimits`), resolution
goes through all roles the user has or that lie above these
(`roleVisited_iff`), the backends list those held through active roles only, and
the two agree exactly if none of the former is inactive (`disabled_roles_iff`). A
role of a group then reaches the members exactly if they have it, and its
policies, without the group (`group_roles_iff`).
-/
import SsoSystem.Permission.ResolveTheorems
import SsoSystem.Storage.BackendTheorems

namespace SsoSystem

open CMem Climb List

/-! ## §1 The roles whose policies are collected -/

section Visited

variable {α : Type} {max : Nat} {step : List Policy → α → List Policy} {f : α → List Policy}

/-- The elements a guarded loop comes to. -/
def visited (max : Nat) (step : List Policy → α → List Policy) : List Policy → List α → List α
  | _, [] => []
  | acc, x :: xs => if acc.length < max then x :: visited max step (step acc x) xs else []

/-- An element is come to if what stands before it does not fill the array. -/
theorem mem_visited_iff (hstep : ∀ acc x, acc.length ≤ max → step acc x = (acc ++ f x).take max)
    {y : α} : ∀ {xs : List α} {acc : List Policy}, acc.length ≤ max →
      (y ∈ visited max step acc xs ↔ ∃ before after, xs = before ++ y :: after ∧
        (acc ++ before.flatMap f).length < max)
  | [], acc, _ => by simp [visited]
  | x :: xs, acc, hacc => by
    have hnext : (step acc x).length ≤ max := by
      rw [hstep acc x hacc, length_take]
      omega
    have hlen : ∀ before : List α, (step acc x ++ before.flatMap f).length < max ↔
        (acc ++ (x :: before).flatMap f).length < max := by
      intro before
      rw [hstep acc x hacc]
      simp only [flatMap_cons, length_append, length_take]
      omega
    rw [visited]
    constructor
    · intro hy
      split at hy
      · next hroom =>
        rcases mem_cons.mp hy with rfl | hy
        · exact ⟨[], xs, rfl, by simpa using hroom⟩
        · obtain ⟨before, after, rfl, hlt⟩ := (mem_visited_iff hstep hnext).mp hy
          exact ⟨x :: before, after, rfl, (hlen before).mp hlt⟩
      · cases hy
    · rintro ⟨before, after, heq, hlt⟩
      have hroom : acc.length < max := by
        rw [length_append] at hlt
        omega
      rw [if_pos hroom]
      cases before with
      | nil =>
        obtain ⟨rfl, rfl⟩ := cons.inj heq
        exact mem_cons_self
      | cons x' before =>
        obtain ⟨rfl, rfl⟩ := cons.inj heq
        exact mem_cons_of_mem _
          ((mem_visited_iff hstep hnext).mpr ⟨before, after, rfl, (hlen before).mpr hlt⟩)

end Visited

/-- The roles of step 2 of `policy_resolve_for_user`, in the order in which it comes to them. -/
def roleTargets (s : Store) (uid : Nat) : List Nat :=
  (s.getUserRoles uid 64).flatMap fun rid => rid :: roleGetAncestors s rid 16

/-- The roles for which step 2 calls `collect_policies_for_target`. -/
def collectedRoles (s : Store) (uid max : Nat) : List Nat :=
  visited max (collectPoliciesForTarget s .role max)
    (collectPoliciesForTarget s .user max [] uid) (roleTargets s uid)

/-- A role of step 2 that does not stand behind a full array. -/
def RoleVisited (s : Store) (uid rid : Nat) : Prop :=
  ∃ before after, roleTargets s uid = before ++ rid :: after ∧
    (targetEntries s .user uid ++ before.flatMap (targetEntries s .role)).length < 64

variable {s : Store}

theorem mem_collectedRoles_iff {uid rid : Nat} :
    rid ∈ collectedRoles s uid 64 ↔ RoleVisited s uid rid := by
  have hown : collectPoliciesForTarget s .user 64 [] uid = (targetEntries s .user uid).take 64 :=
    collectPoliciesForTarget_eq (Nat.zero_le _) uid
  rw [collectedRoles, hown,
    mem_visited_iff (fun acc x hacc => collectPoliciesForTarget_eq hacc x) (length_take_le _ _)]
  unfold RoleVisited
  simp only [length_append, length_take]
  refine exists_congr fun before => exists_congr fun after => and_congr_right fun _ => ?_
  omega

/-! ## §2 Inactive roles -/

section Inactive

variable {s : Store} {uid rid : Nat}

/-- A walk that has come to `rid` over active roles only is a climb. -/
theorem reaches_of_chain {n : Nat} : ∀ {cur : Nat} {before after : List Nat},
    cur :: getAncestors s.roleGetParent n cur = before ++ rid :: after →
    (∀ x ∈ before, s.isActive x = true) → s.isActive rid = true →
    s.isActive cur = true ∧ Reaches s.activeParent cur rid := by
  induction n with
  | zero =>
    intro cur before after heq _ hactive
    cases before with
    | nil =>
      obtain ⟨rfl, -⟩ := cons.inj heq
      exact ⟨hactive, .refl _⟩
    | cons x before => simp [getAncestors] at heq
  | succ n ih =>
    intro cur before after heq hbefore hactive
    cases before with
    | nil =>
      obtain ⟨rfl, -⟩ := cons.inj heq
      exact ⟨hactive, .refl _⟩
    | cons x before =>
      obtain ⟨rfl, hrest⟩ := cons.inj heq
      refine ⟨hbefore _ mem_cons_self, ?_⟩
      rw [getAncestors] at hrest
      cases hpar : s.roleGetParent cur with
      | none => simp [hpar] at hrest
      | some par =>
        rw [hpar] at hrest
        dsimp only at hrest
        split at hrest
        · simp at hrest
        · next hne =>
          obtain ⟨hparActive, hreach⟩ :=
            ih hrest (fun x hx => hbefore x (mem_cons_of_mem _ hx)) hactive
          exact .head (Store.activeParent_eq_some_iff.mpr ⟨hpar, hne, hparActive⟩) hreach

theorem above_of_split {ds : List Nat} : ∀ {before after : List Nat},
    ds.flatMap (fun d => d :: roleGetAncestors s d 16) = before ++ rid :: after →
    (∀ x ∈ before, s.isActive x = true) → s.isActive rid = true →
    Above s.activeParent s.isActive ds rid := by
  induction ds with
  | nil =>
    intro before after heq
    simp at heq
  | cons d ds ih =>
    intro before after heq hbefore hactive
    have hlater : Above s.activeParent s.isActive ds rid →
        Above s.activeParent s.isActive (d :: ds) rid := by
      rintro ⟨e, he, hrest⟩
      exact ⟨e, mem_cons_of_mem _ he, hrest⟩
    rw [flatMap_cons] at heq
    rcases append_eq_append_iff.mp heq with ⟨c, rfl, hrest⟩ | ⟨c, hfirst, hrest⟩
    · -- `rid` stands behind the roles of `d`
      exact hlater (ih hrest (fun x hx => hbefore x (mem_append_right _ hx)) hactive)
    · cases c with
      | nil =>
        rw [nil_append] at hrest
        exact hlater (@ih [] after hrest.symm (forall_mem_nil _) hactive)
      | cons x c =>
        obtain ⟨rfl, -⟩ := cons.inj hrest
        obtain ⟨hstart, hreach⟩ := reaches_of_chain hfirst hbefore hactive
        exact ⟨d, mem_cons_self, hstart, hreach⟩

/-- Where no inactive role is come to, every role come to is held by way of active ones. -/
theorem above_of_roleVisited (hactive : ∀ rid, RoleVisited s uid rid → s.isActive rid = true)
    (h : RoleVisited s uid rid) : Above s.activeParent s.isActive (s.getUserRoles uid 64) rid := by
  obtain ⟨before, after, heq, hlt⟩ := h
  refine above_of_split heq (fun x hx => ?_) (hactive rid ⟨before, after, heq, hlt⟩)
  obtain ⟨pre, post, rfl⟩ := append_of_mem hx
  refine hactive x ⟨pre, post ++ rid :: after, by rw [heq]; simp, ?_⟩
  simp only [flatMap_append, length_append] at hlt ⊢
  omega

end Inactive

/-- Inactive roles grant nothing: resolution collects from the roles the role strategy
considers held, and a policy takes part through the user, a group, or a role that is held by
way of active roles only. -/
structure DisabledInert {s : Store} (b : RoleBackend s) (uid : Nat) : Prop where
  same : ∃ ids, b.rolesWithAncestors uid 128 = some ids ∧
    ∀ rid, rid ∈ collectedRoles s uid 64 ↔ rid ∈ ids
  inert : ∀ p ∈ policyResolveForUser s uid 64, ∃ tt tid, AppliesTo s uid tt tid ∧
    ⟨p.id, tt, tid⟩ ∈ s.policyAssignments ∧ (tt = .role → s.HeldActively uid tid)

/-- Nothing of this user's is cut off on the way: no role lies above itself, and roles, groups,
ancestors and policies fit into the arrays that are there for them. -/
structure WithinLimits (s : Store) (uid : Nat) : Prop where
  acyclic : s.ParentsAcyclic
  roles : (s.userRoles.filter fun row => row.2 == uid).length ≤ 64
  groups : (s.userGroups.filter fun row => row.2 == uid).length ≤ 64
  held : {rid | s.HeldActively uid rid}.ncard ≤ 128
  roleDepth : ∀ d a, (d, uid) ∈ s.userRoles → IsAncestor s.roleGetParent d a →
    a ∈ roleGetAncestors s d 16
  groupDepth : ∀ g a, (g, uid) ∈ s.userGroups → IsAncestor s.groupGetParent g a →
    a ∈ groupGetAncestors s g 16
  targets : ∀ tt tid, AppliesTo s uid tt tid →
    (s.policyAssignments.filter fun a => a.targetType == tt && a.targetId == tid).length ≤ 64
  policies : (entries s uid).length < 64

section

variable {s : Store} {uid : Nat}

theorem isAncestor_of_reaches {d rid : Nat} (h : Reaches s.activeParent d rid) :
    rid = d ∨ IsAncestor s.roleGetParent d rid := by
  induction h using Relation.ReflTransGen.head_induction_on with
  | refl => exact .inl rfl
  | head hup _ ih =>
    obtain ⟨hpar, hne, -⟩ := Store.activeParent_eq_some_iff.mp hup
    rcases ih with rfl | ⟨n, hn⟩
    · exact .inr ⟨1, by simp [getAncestors, hpar, hne]⟩
    · exact .inr ⟨n + 1, by simp [getAncestors, hpar, hne, hn]⟩

theorem appliesTo_of_heldActively {rid : Nat} (h : s.HeldActively uid rid) :
    AppliesTo s uid .role rid := by
  obtain ⟨d, hd, -, hreach⟩ := h
  rcases isAncestor_of_reaches hreach with rfl | hanc
  · exact .role hd
  · exact .roleAncestor hd hanc

end

section Limits

variable {s : Store} {uid : Nat} (hlim : WithinLimits s uid)
include hlim

theorem mem_roleTargets_iff {rid : Nat} : rid ∈ roleTargets s uid ↔ AppliesTo s uid .role rid := by
  have hmem : ∀ d, d ∈ s.getUserRoles uid 64 ↔ (d, uid) ∈ s.userRoles := fun _ =>
    Store.mem_plGetA_iff hlim.roles
  simp only [roleTargets, mem_flatMap, mem_cons, hmem]
  constructor
  · rintro ⟨d, hd, rfl | hanc⟩
    · exact .role hd
    · exact .roleAncestor hd ⟨16, hanc⟩
  · rintro (- | hd | ⟨hd, hanc⟩)
    · exact ⟨rid, hd, .inl rfl⟩
    · exact ⟨_, hd, .inr (hlim.roleDepth _ _ hd hanc)⟩

/-- Resolution comes to every role the user has or that lies above one of these. -/
theorem roleVisited_iff {rid : Nat} : RoleVisited s uid rid ↔ AppliesTo s uid .role rid := by
  rw [← mem_roleTargets_iff hlim]
  constructor
  · rintro ⟨before, after, heq, -⟩
    rw [heq]
    exact mem_append_right _ mem_cons_self
  · intro hmem
    obtain ⟨before, after, heq⟩ := append_of_mem hmem
    refine ⟨before, after, heq, ?_⟩
    -- what stands before the role is a part of all that comes to the user
    have hall : (s.getUserRoles uid 64).flatMap
        (hierarchyEntries s .role fun r => roleGetAncestors s r 16) =
          (roleTargets s uid).flatMap (targetEntries s .role) := by
      rw [roleTargets, flatMap_assoc]
      rfl
    have hroom := hlim.policies
    rw [entries, hall, heq] at hroom
    simp only [flatMap_append, length_append] at hroom ⊢
    omega

theorem mem_targetEntries_iff {tt : TargetType} {tid : Nat} {p : Policy}
    (happlies : AppliesTo s uid tt tid) : p ∈ targetEntries s tt tid ↔
      s.policyGetById p.id = some p ∧ ⟨p.id, tt, tid⟩ ∈ s.policyAssignments := by
  have hall := hlim.targets tt tid happlies
  rw [targetEntries, Store.getTargetPolicies, take_of_length_le (by rwa [length_map]),
    mem_filterMap]
  constructor
  · rintro ⟨pid, hpid, hget⟩
    have hid : p.id = pid := by simpa using find?_some hget
    obtain ⟨a, ha, rfl⟩ := mem_map.mp hpid
    obtain ⟨hmem, htarget⟩ := mem_filter.mp ha
    obtain ⟨rfl, rfl⟩ : a.targetType = tt ∧ a.targetId = tid := by simpa using htarget
    rw [hid]
    exact ⟨hget, hmem⟩
  · rintro ⟨hget, hmem⟩
    exact ⟨p.id, mem_map.mpr ⟨_, mem_filter.mpr ⟨hmem, by simp⟩, rfl⟩, hget⟩

/-- Resolution returns the policies assigned to the user. -/
theorem mem_resolve_iff {p : Policy} : p ∈ policyResolveForUser s uid 64 ↔ Assigned s uid p := by
  have hroles : ∀ d, d ∈ s.getUserRoles uid 64 ↔ (d, uid) ∈ s.userRoles := fun _ =>
    Store.mem_plGetA_iff hlim.roles
  have hgroups : ∀ g, g ∈ s.getUserGroups uid 64 ↔ (g, uid) ∈ s.userGroups := fun _ =>
    Store.mem_plGetA_iff hlim.groups
  rw [(policyResolveForUser_perm s uid).mem_iff, take_of_length_le (Nat.le_of_lt hlim.policies),
    entries, mem_append, mem_append]
  simp only [hierarchyEntries, mem_flatMap, hroles, hgroups]
  constructor
  · rintro (hp | ⟨d, hd, rid, hrid, hp⟩ | ⟨g, hg, gid, hgid, hp⟩)
    · obtain ⟨hget, hmem⟩ := (mem_targetEntries_iff hlim .user).mp hp
      exact ⟨hget, .user, uid, .user, hmem⟩
    · have happlies : AppliesTo s uid .role rid := by
        rcases mem_cons.mp hrid with rfl | hanc
        · exact .role hd
        · exact .roleAncestor hd ⟨16, hanc⟩
      obtain ⟨hget, hmem⟩ := (mem_targetEntries_iff hlim happlies).mp hp
      exact ⟨hget, .role, rid, happlies, hmem⟩
    · have happlies : AppliesTo s uid .group gid := by
        rcases mem_cons.mp hgid with rfl | hanc
        · exact .group hg
        · exact .groupAncestor hg ⟨16, hanc⟩
      obtain ⟨hget, hmem⟩ := (mem_targetEntries_iff hlim happlies).mp hp
      exact ⟨hget, .group, gid, happlies, hmem⟩
  · rintro ⟨hget, tt, tid, happlies, hmem⟩
    have hp := (mem_targetEntries_iff hlim happlies).mpr ⟨hget, hmem⟩
    cases happlies with
    | user => exact .inl hp
    | role hd => exact .inr (.inl ⟨tid, hd, tid, mem_cons_self, hp⟩)
    | roleAncestor hd hanc =>
      exact .inr (.inl ⟨_, hd, tid, mem_cons_of_mem _ (hlim.roleDepth _ _ hd hanc), hp⟩)
    | group hg => exact .inr (.inr ⟨tid, hg, tid, mem_cons_self, hp⟩)
    | groupAncestor hg hanc =>
      exact .inr (.inr ⟨_, hg, tid, mem_cons_of_mem _ (hlim.groupDepth _ _ hg hanc), hp⟩)

end Limits

/-- Resolution and the role strategy go by the same roles exactly if no role the user has, nor
one above it, is missing or inactive. -/
theorem disabled_roles_iff (s : Store) (b : RoleBackend s) (uid : Nat)
    (hlim : WithinLimits s uid) :
    DisabledInert b uid ↔ ∀ rid, AppliesTo s uid .role rid → s.isActive rid = true := by
  obtain ⟨ids, hids, hheld⟩ :=
    Store.exists_rolesWithAncestors b hlim.acyclic hlim.roles hlim.held
  constructor
  · rintro ⟨⟨ids', hids', hsame⟩, -⟩ rid happlies
    obtain rfl : ids = ids' := Option.some.inj (hids.symm.trans hids')
    obtain ⟨d, -, hstart, hreach⟩ := (hheld rid).mp
      ((hsame rid).mp (mem_collectedRoles_iff.mpr ((roleVisited_iff hlim).mpr happlies)))
    exact Store.isActive_of_reaches hstart hreach
  · intro hactive
    have hvisited : ∀ rid, RoleVisited s uid rid → s.HeldActively uid rid := by
      intro rid hrid
      refine (Store.above_iff_heldActively hlim.roles rid).mp (above_of_roleVisited ?_ hrid)
      exact fun rid' hrid' => hactive rid' ((roleVisited_iff hlim).mp hrid')
    have hsame : ∀ rid, rid ∈ collectedRoles s uid 64 ↔ rid ∈ ids := by
      intro rid
      rw [mem_collectedRoles_iff, hheld]
      exact ⟨hvisited rid, fun h => (roleVisited_iff hlim).mpr (appliesTo_of_heldActively h)⟩
    refine ⟨⟨ids, hids, hsame⟩, fun p hp => ?_⟩
    obtain ⟨-, tt, tid, happlies, hmem⟩ := (mem_resolve_iff hlim).mp hp
    refine ⟨tt, tid, happlies, hmem, ?_⟩
    rintro rfl
    exact hvisited tid ((roleVisited_iff hlim).mpr happlies)

/-! ### Roles above and below each other -/

/-- A hierarchy that ends before the walk does has no further ancestors. -/
theorem mem_getAncestors_of_short {parent : Nat → Option Nat} {a : Nat} : ∀ {k r : Nat},
    (getAncestors parent k r).length < k → IsAncestor parent r a → a ∈ getAncestors parent k r
  | 0, _, hshort, _ => absurd hshort (Nat.not_lt_zero _)
  | k + 1, r, hshort, ⟨0, ha⟩ => absurd ha not_mem_nil
  | k + 1, r, hshort, ⟨n + 1, ha⟩ => by
    rw [getAncestors] at hshort ha ⊢
    cases hpar : parent r with
    | none => simp [hpar] at ha
    | some par =>
      by_cases hzero : par = 0
      · simp [hpar, hzero] at ha
      · simp only [hpar, hzero, if_false, length_cons, mem_cons] at hshort ha ⊢
        refine ha.imp_right fun ha => ?_
        exact mem_getAncestors_of_short (by omega) ⟨n, ha⟩

/-- User 1 has been given role 2, below role 1; policy 1 is assigned to role 1, and role 1 to
group 1, of which the user is a member. -/
def leadStore : Store :=
  { memOpen with
    users := [sampleUser]
    roles := [{ id := 1, name := lit "staff", parentRoleId := 0, status := .active },
      { id := 2, name := lit "lead", parentRoleId := 1, status := .active }]
    groups := [{ id := 1, name := lit "all", parentGroupId := 0, status := .active }]
    policies := [matchAllPolicy]
    userRoles := [(2, 1)]
    roleGroups := [(1, 1)]
    userGroups := [(1, 1)]
    policyAssignments := [⟨1, .role, 1⟩] }

theorem withinLimits_leadStore : WithinLimits leadStore 1 where
  acyclic := Store.parentsAcyclic_of_lt (by decide)
  roles := by decide
  groups := by decide
  held := (Store.ncard_heldActively_le 1).trans (by decide)
  roleDepth d a hd hanc := by
    obtain rfl : d = 2 := by simpa [leadStore] using hd
    exact mem_getAncestors_of_short (by decide) hanc
  groupDepth g a hg hanc := by
    obtain rfl : g = 1 := by simpa [leadStore] using hg
    exact mem_getAncestors_of_short (by decide) hanc
  targets _ _ _ := (length_filter_le _ _).trans (by decide)
  policies := by decide

/-- Resolution and the role strategy agree on the two roles. -/
theorem leadStore_inert : policyResolveForUser leadStore 1 64 = [matchAllPolicy] ∧
    DisabledInert (.memory : RoleBackend leadStore) 1 := by
  refine ⟨by decide, (disabled_roles_iff leadStore .memory 1 withinLimits_leadStore).mpr ?_⟩
  intro rid happlies
  have hall : ∀ rid ∈ roleTargets leadStore 1, leadStore.isActive rid = true := by decide
  exact hall rid ((mem_roleTargets_iff withinLimits_leadStore).mpr happlies)

/-! ### An inactive role with a policy -/

/-- User 1 has been given role 1, which is inactive; policy 1 is assigned to the role. -/
def inactiveRoleStore : Store :=
  { memOpen with
    users := [sampleUser]
    roles := [{ id := 1, name := lit "staff", parentRoleId := 0, status := .inactive }]
    policies := [matchAllPolicy]
    userRoles := [(1, 1)]
    policyAssignments := [⟨1, .role, 1⟩] }

theorem inactiveRole_grants :
    policyResolveForUser inactiveRoleStore 1 64 = [matchAllPolicy] ∧
      inactiveRoleStore.getUserRolesWithAncestors 1 128 = some [] ∧
      ¬ DisabledInert (.memory : RoleBackend inactiveRoleStore) 1 := by
  refine ⟨by decide, by decide, fun h => ?_⟩
  obtain ⟨ids, hids, hsame⟩ := h.same
  obtain rfl : [] = ids := Option.some.inj ((show some [] = _ by decide).trans hids)
  exact absurd ((hsame 1).mp (by decide)) not_mem_nil

/-! ## §3 Roles of groups -/

/-- The user is a member of the group or of one below it. -/
def MemberOf (s : Store) (uid gid : Nat) : Prop :=
  ∃ g, (g, uid) ∈ s.userGroups ∧ (gid = g ∨ IsAncestor s.groupGetParent g gid)

/-- The policy is assigned to the role or to one of its ancestors. -/
def PolicyOfRole (s : Store) (rid : Nat) (p : Policy) : Prop :=
  s.policyGetById p.id = some p ∧
    ∃ a, (a = rid ∨ IsAncestor s.roleGetParent rid a) ∧ ⟨p.id, .role, a⟩ ∈ s.policyAssignments

/-- A role of a group that the user belongs to. -/
structure GroupGrant (s : Store) (uid : Nat) (role : Role) (gid : Nat) : Prop where
  stored : s.roleGetById role.id = some role
  assigned : (role.id, gid) ∈ s.roleGroups
  member : MemberOf s uid gid

/-- Roles assigned to groups reach a member: their policies and those of their ancestors take
part in the resolution, and the role counts as held. -/
def GroupRolesReach {s : Store} (b : RoleBackend s) (uid : Nat) : Prop :=
  ∀ role gid, GroupGrant s uid role gid →
    (∀ p, PolicyOfRole s role.id p → p ∈ policyResolveForUser s uid 64) ∧
      b.userHasRole uid role.name = some true

/-- Every role is found under its name. -/
def RoleBackend.FindsNames {s : Store} (b : RoleBackend s) : Prop :=
  ∀ role, s.roleGetById role.id = some role → b.roleGetByName role.name = some role

/-- Roles assigned to groups reach a member exactly if the member holds them through own roles,
and is assigned their policies, without the group. -/
theorem group_roles_iff (s : Store) (b : RoleBackend s) (uid : Nat) (hlim : WithinLimits s uid)
    (hnames : b.FindsNames) :
    GroupRolesReach b uid ↔ ∀ role gid, GroupGrant s uid role gid →
      (∀ p, PolicyOfRole s role.id p → Assigned s uid p) ∧ s.HeldActively uid role.id := by
  obtain ⟨ids, hids, hheld⟩ :=
    Store.exists_rolesWithAncestors b hlim.acyclic hlim.roles hlim.held
  refine forall₃_congr fun role gid hgrant => and_congr ?_ ?_
  · exact forall₂_congr fun p _ => mem_resolve_iff hlim
  · rw [RoleBackend.userHasRole, hnames role hgrant.stored, ← hheld]
    simp [hids]

/-- The role of the group is one the user has through a role of their own. -/
theorem leadStore_reached : GroupGrant leadStore 1
      { id := 1, name := lit "staff", parentRoleId := 0, status := .active } 1 ∧
    GroupRolesReach (.memory : RoleBackend leadStore) 1 := by
  have hnames : (.memory : RoleBackend leadStore).FindsNames := by
    intro role hrole
    have hall : ∀ role ∈ leadStore.roles, leadStore.roleGetByName role.name = some role := by
      decide
    exact hall role (mem_of_find?_eq_some hrole)
  have hnone : ∀ n, getAncestors leadStore.roleGetParent n 1 = [] := by
    rintro (_ | n) <;> rfl
  refine ⟨⟨by decide, by decide, 1, by decide, .inl rfl⟩,
    (group_roles_iff leadStore .memory 1 withinLimits_leadStore hnames).mpr ?_⟩
  rintro role gid ⟨-, hassigned, -⟩
  have hid : role.id = 1 := by
    simp only [leadStore, mem_singleton, Prod.mk.injEq] at hassigned
    exact hassigned.1
  rw [hid]
  constructor
  · rintro p ⟨hget, a, rfl | ⟨n, ha⟩, hmem⟩
    · refine ⟨hget, .role, 1, ?_, hmem⟩
      exact (mem_roleTargets_iff withinLimits_leadStore).mp (by decide)
    · rw [hnone] at ha
      cases ha
  · exact ⟨2, by decide, by decide, .head (show leadStore.activeParent 2 =
      some 1 by decide) (.refl 1)⟩

/-! ### A role assigned to a group -/

/-- Role 1 is assigned to group 1, of which user 1 is a member; policy 1 to the role. -/
def groupRoleStore : Store :=
  { memOpen with
    users := [sampleUser]
    roles := [{ id := 1, name := lit "staff", parentRoleId := 0, status := .active }]
    groups := [{ id := 1, name := lit "all", parentGroupId := 0, status := .active }]
    policies := [matchAllPolicy]
    roleGroups := [(1, 1)]
    userGroups := [(1, 1)]
    policyAssignments := [⟨1, .role, 1⟩] }

theorem groupRole_does_not_reach :
    policyResolveForUser groupRoleStore 1 64 = [] ∧
      userHasRole groupRoleStore 1 (lit "staff") = some false ∧
      ¬ GroupRolesReach (.memory : RoleBackend groupRoleStore) 1 := by
  have hnone : userHasRole groupRoleStore 1 (lit "staff") = some false := by decide
  refine ⟨by decide, hnone, fun h => ?_⟩
  have hgrant : GroupGrant groupRoleStore 1
      { id := 1, name := lit "staff", parentRoleId := 0, status := .active } 1 :=
    ⟨by decide, by decide, 1, by decide, .inl rfl⟩
  have hheld := (h _ 1 hgrant).2
  rw [RoleBackend.userHasRole_memory] at hheld
  exact absurd (hnone.symm.trans hheld) (by decide)

end SsoSystem
