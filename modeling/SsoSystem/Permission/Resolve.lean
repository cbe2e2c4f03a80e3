/-
SsoSystem.Permission.Resolve — collecting a user's policies
(`policy_resolve_for_user` in src/policy.c, `role_get_ancestors` in
src/role.c, `group_get_ancestors` in src/group.c).

The collection fills a caller's array of `max` entries in source order: the
user's own policies, then role by role with the role's ancestors, then group
by group. Each loop of the source stops when the array is full, each id
query has its own limit (64 policies a target, 64 roles, 64 groups) and each
ancestor walk stops after 16 steps. The array is sorted by priority last.
-/
import SsoSystem.Storage.Memory

namespace SsoSystem

open CMem

/-! ## §1 Ancestors -/

/-- `role_get_ancestors` and `group_get_ancestors` over their parent query:
at most `max` parents, stopping at a root or at an id that does not exist. -/
def getAncestors (parent : Nat → Option Nat) : Nat → Nat → List Nat
  | 0, _ => []
  | max + 1, current =>
    match parent current with
    | none => []
    | some p => if p = 0 then [] else p :: getAncestors parent max p

def roleGetAncestors (s : Store) (rid : Nat) (max : Nat) : List Nat :=
  getAncestors s.roleGetParent max rid

def groupGetAncestors (s : Store) (gid : Nat) (max : Nat) : List Nat :=
  getAncestors s.groupGetParent max gid

/-! ## §2 Collection -/

/-- `for (...; *count < max; ...)`: one step a list element while there is room. -/
def whileRoom {α : Type} (max : Nat) (step : List Policy → α → List Policy) :
    List Policy → List α → List Policy
  | acc, [] => acc
  | acc, x :: xs => if acc.length < max then whileRoom max step (step acc x) xs else acc

variable (s : Store) (tt : TargetType) (ancestors : Nat → List Nat) (max : Nat) (acc : List Policy)
    (tid : Nat)

/-- `collect_policies_for_target`: an id whose policy is gone is passed over. -/
def collectPoliciesForTarget : List Policy :=
  whileRoom max (fun acc pid => acc ++ (s.policyGetById pid).toList) acc
    (s.getTargetPolicies tt tid 64)

/-- One role of step 2, or one group of step 3: the target itself, then its ancestors. -/
def collectWithAncestors : List Policy :=
  whileRoom max (collectPoliciesForTarget s tt max)
    (collectPoliciesForTarget s tt max acc tid) (ancestors tid)

/-- Steps 1 to 3 of `policy_resolve_for_user`. -/
def collectPolicies (s : Store) (uid : Nat) (max : Nat) : List Policy :=
  let own := collectPoliciesForTarget s .user max [] uid
  let roles := whileRoom max
    (collectWithAncestors s .role (fun r => roleGetAncestors s r 16) max)
    own (s.getUserRoles uid 64)
  whileRoom max
    (collectWithAncestors s .group (fun g => groupGetAncestors s g 16) max)
    roles (s.getUserGroups uid 64)

/-! ## §3 Sorting -/

/-- The inner loop of the insertion sort, on the sorted part read from its
end: entries of lower priority move up past the key. -/
def sinkByPriority (key : Policy) : List Policy → List Policy
  | [] => [key]
  | p :: ps => if p.priority < key.priority then p :: sinkByPriority key ps else key :: p :: ps

/-- Step 4 of `policy_resolve_for_user`: insertion sort, highest priority first. -/
def sortByPriority (ps : List Policy) : List Policy :=
  (ps.foldl (fun sorted key => sinkByPriority key sorted) []).reverse

/-- The inner loop in the array, with `j + 1` as its argument: an entry of lower priority is
copied to the place behind it. -/
def sinkInPlace (key : Policy) : Nat → List Policy → List Policy
  | 0, ps => ps.set 0 key
  | j + 1, ps =>
    match ps[j]? with
    | some p => if p.priority < key.priority then sinkInPlace key j (ps.set (j + 1) p) else ps.set
        (j + 1) key
    | none => ps

/-- Step 4 as the source does it, in the array. -/
def sortInPlace (ps : List Policy) : List Policy :=
  (List.range' 1 (ps.length - 1)).foldl (fun ps i => ps[i]?.elim ps fun key => sinkInPlace key i ps)
    ps

/-- `policy_resolve_for_user`; the empty list is `SSO_ERR_NOT_FOUND`. -/
def policyResolveForUser (s : Store) (uid : Nat) (max : Nat) : List Policy :=
  sortByPriority (collectPolicies s uid max)

end SsoSystem
