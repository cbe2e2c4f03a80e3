/-
SsoSystem.Storage.Memory — the in-memory storage backend
(src/storage_memory.c), the part that holds users, roles, groups, policies
and the assignments between them.

The dynamic arrays are lists in insertion order. A lookup returns the first
match, an update overwrites the first match, a delete removes it, and the
id counters only grow, so an id is never handed out twice. The output
arrays of the queries have a size, kept here as the `max` argument.

Pair tables keep the source's column order: `userRoles` is (role, user),
`roleGroups` is (role, group), `userGroups` is (group, user).
`Store.groupDelete` clears the columns the source clears, which are not the
ones that hold the group.
-/
import SsoSystem.Types

namespace SsoSystem

open CMem

/-! ## §1 State -/

/-- One row of `policy_assignments`. -/
structure Assignment where
  policyId : Nat
  targetType : TargetType
  targetId : Nat
  deriving DecidableEq, Repr

/-- `mem_priv_t`, restricted to the entities and their assignments. -/
structure Store where
  users : List User
  roles : List Role
  groups : List Group
  policies : List Policy
  userRoles : List (Nat × Nat)
  roleGroups : List (Nat × Nat)
  userGroups : List (Nat × Nat)
  policyAssignments : List Assignment
  nextUid : Nat
  nextRid : Nat
  nextGid : Nat
  nextPid : Nat
  deriving DecidableEq, Repr

/-- `mem_open`. -/
def memOpen : Store where
  users := []
  roles := []
  groups := []
  policies := []
  userRoles := []
  roleGroups := []
  userGroups := []
  policyAssignments := []
  nextUid := 1
  nextRid := 1
  nextGid := 1
  nextPid := 1

/-! ## §2 Dynamic arrays and pair lists -/

/-- `memcpy` over the first element that satisfies `p`. -/
def replaceFirst {α : Type} (p : α → Bool) (x : α) : List α → List α
  | [] => []
  | y :: ys => if p y then x :: ys else y :: replaceFirst p x ys

variable (l : List (Nat × Nat)) (key : Nat) (max : Nat)

/-- `pl_get` with `col = 1`: the second components of the pairs that start with `key`. -/
def plGetB : List Nat :=
  ((l.filter fun p => p.1 == key).map Prod.snd).take max

/-- `pl_get` with `col = 2`: the first components of the pairs that end with `key`. -/
def plGetA : List Nat :=
  ((l.filter fun p => p.2 == key).map Prod.fst).take max

def plRmByA (a : Nat) : List (Nat × Nat) :=
  l.filter fun p => p.1 != a

def plRmByB (b : Nat) : List (Nat × Nat) :=
  l.filter fun p => p.2 != b

def alRmByTarget (l : List Assignment) (tt : TargetType) (tid : Nat) : List Assignment :=
  l.filter fun a => !(a.targetType == tt && a.targetId == tid)

namespace Store

variable (s : Store)

/-! ## §3 Lookups -/

def userGetById (id : Nat) : Option User := s.users.find? fun u => u.id == id
def roleGetById (id : Nat) : Option Role := s.roles.find? fun r => r.id == id
def groupGetById (id : Nat) : Option Group := s.groups.find? fun g => g.id == id
def policyGetById (id : Nat) : Option Policy := s.policies.find? fun p => p.id == id

def userGetByName (n : Bytes) : Option User := s.users.find? fun u => strEq u.username n
def userGetByPhone (n : Bytes) : Option User := s.users.find? fun u => strEq u.phone n
def roleGetByName (n : Bytes) : Option Role := s.roles.find? fun r => strEq r.name n
def groupGetByName (n : Bytes) : Option Group := s.groups.find? fun g => strEq g.name n
def policyGetByName (n : Bytes) : Option Policy := s.policies.find? fun p => strEq p.name n

def getUserRoles (uid : Nat) (max : Nat) : List Nat := plGetA s.userRoles uid max
def getUserGroups (uid : Nat) (max : Nat) : List Nat := plGetA s.userGroups uid max

variable (pid : Nat) (tt : TargetType) (tid : Nat)

/-- `mem_get_target_policies`. -/
def getTargetPolicies (max : Nat) : List Nat :=
  ((s.policyAssignments.filter fun a => a.targetType == tt && a.targetId == tid).map
    Assignment.policyId).take max

/-- `mem_get_role_users`. -/
def getRoleUsers (rid : Nat) (max : Nat) : List Nat := plGetB s.userRoles rid max

/-- `mem_get_group_users`. -/
def getGroupUsers (gid : Nat) (max : Nat) : List Nat := plGetB s.userGroups gid max

/-- `mem_get_policy_targets`. -/
def getPolicyTargets (max : Nat) : List Nat :=
  ((s.policyAssignments.filter fun a => a.policyId == pid && a.targetType == tt).map
    Assignment.targetId).take max

/-- Whether the target of a policy assignment exists. -/
def targetExists : TargetType → Nat → Bool
  | .user, id => (s.userGetById id).isSome
  | .role, id => (s.roleGetById id).isSome
  | .group, id => (s.groupGetById id).isSome
  | .other _, _ => false

/-- `mem_role_get_parent`; `none` is `SSO_ERR_NOT_FOUND`. -/
def roleGetParent (rid : Nat) : Option Nat := (s.roleGetById rid).map Role.parentRoleId

/-- `mem_group_get_parent`. -/
def groupGetParent (gid : Nat) : Option Nat := (s.groupGetById gid).map Group.parentGroupId

/-! ## §4 Create, update, delete -/

/-- `mem_user_create`: refuses a non-empty name that is taken. -/
def userCreate (u : User) : Except SsoError Store :=
  if cstr u.username ≠ [] ∧ (s.userGetByName u.username).isSome then .error .alreadyExists
  else .ok { s with users := s.users ++ [{ u with id := s.nextUid }], nextUid := s.nextUid + 1 }

def roleCreate (r : Role) : Except SsoError Store :=
  if (s.roleGetByName r.name).isSome then .error .alreadyExists
  else .ok { s with roles := s.roles ++ [{ r with id := s.nextRid }], nextRid := s.nextRid + 1 }

def groupCreate (g : Group) : Except SsoError Store :=
  if (s.groupGetByName g.name).isSome then .error .alreadyExists
  else .ok { s with groups := s.groups ++ [{ g with id := s.nextGid }], nextGid := s.nextGid + 1 }

def policyCreate (p : Policy) : Except SsoError Store :=
  if (s.policyGetByName p.name).isSome then .error .alreadyExists
  else .ok { s with
    policies := s.policies ++ [{ p with id := s.nextPid }], nextPid := s.nextPid + 1 }

def userUpdate (u : User) : Except SsoError Store :=
  if (s.userGetById u.id).isSome then
    .ok { s with users := replaceFirst (fun v => v.id == u.id) u s.users }
  else .error .notFound

def roleUpdate (r : Role) : Except SsoError Store :=
  if (s.roleGetById r.id).isSome then
    .ok { s with roles := replaceFirst (fun v => v.id == r.id) r s.roles }
  else .error .notFound

def groupUpdate (g : Group) : Except SsoError Store :=
  if (s.groupGetById g.id).isSome then
    .ok { s with groups := replaceFirst (fun v => v.id == g.id) g s.groups }
  else .error .notFound

def policyUpdate (p : Policy) : Except SsoError Store :=
  if (s.policyGetById p.id).isSome then
    .ok { s with policies := replaceFirst (fun v => v.id == p.id) p s.policies }
  else .error .notFound

def userDelete (id : Nat) : Except SsoError Store :=
  if (s.userGetById id).isSome then
    .ok { s with
      users := s.users.eraseP fun u => u.id == id
      userRoles := plRmByB s.userRoles id
      userGroups := plRmByB s.userGroups id
      policyAssignments := alRmByTarget s.policyAssignments .user id }
  else .error .notFound

def roleDelete (id : Nat) : Except SsoError Store :=
  if (s.roleGetById id).isSome then
    .ok { s with
      roles := s.roles.eraseP fun r => r.id == id
      userRoles := plRmByA s.userRoles id
      roleGroups := plRmByA s.roleGroups id
      policyAssignments := alRmByTarget s.policyAssignments .role id }
  else .error .notFound

/-- `mem_group_delete`. The group stands in the second column of `role_groups`
and in the first of `user_groups`; the source clears the other two. -/
def groupDelete (id : Nat) : Except SsoError Store :=
  if (s.groupGetById id).isSome then
    .ok { s with
      groups := s.groups.eraseP fun g => g.id == id
      roleGroups := plRmByA s.roleGroups id
      userGroups := plRmByB s.userGroups id
      policyAssignments := alRmByTarget s.policyAssignments .group id }
  else .error .notFound

/-- `mem_policy_delete`: the assignments that name the policy stay. -/
def policyDelete (id : Nat) : Except SsoError Store :=
  if (s.policyGetById id).isSome then
    .ok { s with policies := s.policies.eraseP fun p => p.id == id }
  else .error .notFound

/-! ## §5 Assignments -/

def assignRoleToUser (rid uid : Nat) : Store :=
  { s with userRoles := s.userRoles ++ [(rid, uid)] }

def unassignRoleFromUser (rid uid : Nat) : Store :=
  { s with userRoles := s.userRoles.eraseP fun p => p.1 == rid && p.2 == uid }

def assignRoleToGroup (rid gid : Nat) : Store :=
  { s with roleGroups := s.roleGroups ++ [(rid, gid)] }

def unassignRoleFromGroup (rid gid : Nat) : Store :=
  { s with roleGroups := s.roleGroups.eraseP fun p => p.1 == rid && p.2 == gid }

def addUserToGroup (gid uid : Nat) : Store :=
  { s with userGroups := s.userGroups ++ [(gid, uid)] }

def removeUserFromGroup (gid uid : Nat) : Store :=
  { s with userGroups := s.userGroups.eraseP fun p => p.1 == gid && p.2 == uid }

def assignPolicy : Store :=
  { s with policyAssignments := s.policyAssignments ++ [⟨pid, tt, tid⟩] }

def unassignPolicy : Store :=
  { s with policyAssignments := s.policyAssignments.eraseP fun a =>
      a.policyId == pid && a.targetType == tt && a.targetId == tid }

/-! ## §6 Effective roles -/

/-- The role with this id, when it exists and is active. -/
def activeRole (rid : Nat) : Option Role :=
  (s.roleGetById rid).filter fun r => r.status == .active

/-- `ids[n++] = x` unless `x` is already there. -/
def addDistinct (ids : List Nat) (x : Nat) : List Nat :=
  if x ∈ ids then ids else ids ++ [x]

/-- The inner `while (n < m)` of `mem_get_user_roles_with_ancestors`: climbs
from `cur` through active parents. Each turn goes one parent up, so a climb of
more than `roles.length` turns has entered a parent cycle in which every role
is already listed; the source then never leaves the loop (`none`). -/
def climb (m : Nat) : Nat → Nat → List Nat → Option (List Nat)
  | 0, _, ids => if ids.length < m then none else some ids
  | fuel + 1, cur, ids =>
    if ids.length < m then
      match s.roleGetParent cur with
      | none => some ids
      | some par =>
        if par = 0 then some ids
        else match s.activeRole par with
          | none => some ids
          | some _ => climb m fuel par (addDistinct ids par)
    else some ids

/-- The outer loop of `mem_get_user_roles_with_ancestors` over the direct roles. -/
def climbAll (m : Nat) : List Nat → List Nat → Option (List Nat)
  | [], ids => some ids
  | d :: ds, ids =>
    if ids.length < m then
      match s.activeRole d with
      | none => climbAll m ds ids
      | some _ =>
        match s.climb m (s.roles.length + 1) d (addDistinct ids d) with
        | none => none
        | some ids' => climbAll m ds ids'
    else some ids

/-- `mem_get_user_roles_with_ancestors`; `none` when it does not return. The
empty list stands for `SSO_ERR_NOT_FOUND`. -/
def getUserRolesWithAncestors (uid : Nat) (m : Nat) : Option (List Nat) :=
  s.climbAll m (s.getUserRoles uid 64) []

end Store

/-! ## §7 Writes -/

/-- Writes of the storage backend on entities, without the managers above it. -/
inductive StoreWrite where
  | userCreate (u : User)
  | userUpdate (u : User)
  | userDelete (id : Nat)
  | roleCreate (r : Role)
  | roleUpdate (r : Role)
  | roleDelete (id : Nat)
  | groupCreate (g : Group)
  | groupUpdate (g : Group)
  | groupDelete (id : Nat)
  | policyCreate (p : Policy)
  | policyUpdate (p : Policy)
  | policyDelete (id : Nat)
  | assignRoleToUser (rid uid : Nat)
  | unassignRoleFromUser (rid uid : Nat)
  | assignRoleToGroup (rid gid : Nat)
  | unassignRoleFromGroup (rid gid : Nat)
  | addUserToGroup (gid uid : Nat)
  | removeUserFromGroup (gid uid : Nat)
  | assignPolicy (pid : Nat) (tt : TargetType) (tid : Nat)
  | unassignPolicy (pid : Nat) (tt : TargetType) (tid : Nat)

def StoreWrite.apply (s : Store) : StoreWrite → Except SsoError Store
  | .userCreate u => s.userCreate u
  | .userUpdate u => s.userUpdate u
  | .userDelete id => s.userDelete id
  | .roleCreate r => s.roleCreate r
  | .roleUpdate r => s.roleUpdate r
  | .roleDelete id => s.roleDelete id
  | .groupCreate g => s.groupCreate g
  | .groupUpdate g => s.groupUpdate g
  | .groupDelete id => s.groupDelete id
  | .policyCreate p => s.policyCreate p
  | .policyUpdate p => s.policyUpdate p
  | .policyDelete id => s.policyDelete id
  | .assignRoleToUser rid uid => .ok (s.assignRoleToUser rid uid)
  | .unassignRoleFromUser rid uid => .ok (s.unassignRoleFromUser rid uid)
  | .assignRoleToGroup rid gid => .ok (s.assignRoleToGroup rid gid)
  | .unassignRoleFromGroup rid gid => .ok (s.unassignRoleFromGroup rid gid)
  | .addUserToGroup gid uid => .ok (s.addUserToGroup gid uid)
  | .removeUserFromGroup gid uid => .ok (s.removeUserFromGroup gid uid)
  | .assignPolicy pid tt tid => .ok (s.assignPolicy pid tt tid)
  | .unassignPolicy pid tt tid => .ok (s.unassignPolicy pid tt tid)

end SsoSystem
