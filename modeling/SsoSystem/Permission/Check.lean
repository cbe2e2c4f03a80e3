/-
SsoSystem.Permission.Check — the one-shot checkers `perm_check_*`
(src/permission.c) and the management operations that invalidate the
engine's caches (src/user.c, role.c, group.c, policy.c).

The seven checkers differ only in how they fill the parameter union, so each
is `permCheck` at its own request. The management functions all write the
store first and, when that succeeds, call one of the three invalidation
functions or none; each is `mutate` at its own store operation and
invalidation.
-/
import SsoSystem.Permission.Engine

namespace SsoSystem

open CMem

/-- The parts of `sso_context_t` a check or a management call touches. -/
structure System where
  store : Store
  engine : Engine

/-! ## §1 Requests -/

/-- The arguments of the `perm_check_*` calls after the user id. A data record
comes with the address its `strdup` copy gets. -/
inductive CheckRequest where
  | function (functionCode : Bytes)
  | api (method path : Bytes)
  | data (resourceType : Bytes) (record : Option (Bytes × UserAddr))
  | rbac (roleName : Bytes)
  | location (sourceIp : Bytes) (geoCountry : Option Bytes)
  | lbac (userLabels resourceLabel : Bytes)
  | abac (subjectAttrs resourceAttrs action : Option Bytes)

namespace CheckRequest

/-- The strategy a check is named after. -/
def strategy : CheckRequest → StrategyType
  | .function _ => .functional
  | .api _ _ => .api
  | .data _ _ => .data
  | .rbac _ => .rbac
  | .location _ _ => .location
  | .lbac _ _ => .lbac
  | .abac _ _ _ => .abac

/-- `sso_strlcpy` of an optional argument: NULL leaves the field alone. -/
def copyOpt (m : Block) (off size : Nat) : Option Bytes → Block
  | none => m
  | some s => m.strlcpy off size s

/-- The union as a check fills it, on the zeroed context. -/
def params : CheckRequest → Block
  | .function code => Block.zero.strlcpy 0 128 code
  | .api method path => (Block.zero.strlcpy 0 8 method).strlcpy 8 1024 path
  | .data resourceType none => Block.zero.strlcpy 0 64 resourceType
  | .data resourceType (some (record, addr)) =>
    ((Block.zero.strlcpy 0 64 resourceType).putLe 64 8 addr.val).putLe 72 8 (cstr record).length
  | .rbac roleName => Block.zero.strlcpy 0 64 roleName
  | .location ip geo => copyOpt (Block.zero.strlcpy 0 64 ip) 64 8 geo
  | .lbac labels label => (Block.zero.strlcpy 0 256 labels).strlcpy 256 64 label
  | .abac subject resource action =>
    copyOpt (copyOpt (copyOpt Block.zero 0 2048 subject) 2048 2048 resource) 4096 64 action

/-- Whether the check owns the string behind `data.record`. -/
def recordOwned : CheckRequest → Bool
  | .data _ (some _) => true
  | _ => false

/-- `strdup(record_json)`: the copy stands at its address while the check runs. -/
def heap (h : Heap) : CheckRequest → Heap
  | .data _ (some (record, addr)) =>
    { h with load := Function.update h.load addr (some record) }
  | _ => h

/-- The field list handed to the caller; only `perm_check_data` returns one. -/
def returnedFilter (ctx : EvalContext) : CheckRequest → Option (List Bytes)
  | .data _ _ => ctx.fieldFilter
  | _ => none

/-- The evaluation context a check evaluates. -/
def context (req : CheckRequest) (user : User) : EvalContext :=
  { evalContextInit user with params := req.params, recordOwned := req.recordOwned }

end CheckRequest

/-! ## §2 The checkers -/

/-- What a check hands back: its return code, `*allowed` and the field filter
`perm_check_data` returns. -/
structure CheckResult where
  err : SsoError
  allowed : Bool
  fieldFilter : Option (List Bytes)
  deriving DecidableEq, Repr

/-- The common body of `perm_check_*`: fetch the user, evaluate, destroy the
context. `none` when the call does not return. -/
def permCheck (V : Vendor) (h : Heap) (sys : System) (now : UInt64) (uid : Nat)
    (req : CheckRequest) : Option (CheckResult × System) :=
  match sys.store.userGetById uid with
  | none => some ({ err := .notFound, allowed := false, fieldFilter := none }, sys)
  | some user =>
    match evaluateInternal V (req.heap h) sys.store sys.engine now (req.context user) with
    | none => none
    | some (allowed, ctx, engine) =>
      ctx.destroy.map fun _ =>
        ({ err := .ok, allowed, fieldFilter := req.returnedFilter ctx }, { sys with engine })

section Checkers

variable (V : Vendor) (h : Heap) (sys : System) (now : UInt64) (uid : Nat)

def permCheckFunction (functionCode : Bytes) := permCheck V h sys now uid (.function functionCode)

def permCheckApi (method path : Bytes) := permCheck V h sys now uid (.api method path)

def permCheckData (resourceType : Bytes) (record : Option (Bytes × UserAddr)) :=
  permCheck V h sys now uid (.data resourceType record)

def permCheckRbac (roleName : Bytes) := permCheck V h sys now uid (.rbac roleName)

def permCheckLocation (sourceIp : Bytes) (geoCountry : Option Bytes) :=
  permCheck V h sys now uid (.location sourceIp geoCountry)

def permCheckLbac (userLabels resourceLabel : Bytes) :=
  permCheck V h sys now uid (.lbac userLabels resourceLabel)

def permCheckAbac (subjectAttrs resourceAttrs action : Option Bytes) :=
  permCheck V h sys now uid (.abac subjectAttrs resourceAttrs action)

end Checkers

/-! ## §3 Management operations -/

/-- Which cache invalidation a management function ends with. -/
inductive Invalidation where
  | none
  | user (uid : Nat)
  | policy (pid : Nat)
  | all
  deriving DecidableEq, Repr

def Invalidation.apply : Invalidation → Engine → Engine
  | .none, eng => eng
  | .user uid, eng => eng.invalidateUser uid
  | .policy pid, eng => eng.invalidatePolicy pid
  | .all, eng => eng.invalidateAll

/-- The common body of the management functions. -/
def mutate (sys : System) (write : Except SsoError Store) (inv : Invalidation) :
    SsoError × System :=
  match write with
  | .error e => (e, sys)
  | .ok store => (.ok, { store, engine := inv.apply sys.engine })

/-- The calls of the user, role, group and policy managers that change the store. -/
inductive Mutation where
  | userCreate (u : User)
  | userUpdate (u : User)
  | userDelete (id : Nat)
  | roleCreate (name : Bytes) (parentRoleId : Nat)
  | roleUpdate (r : Role)
  | roleDelete (id : Nat)
  | groupCreate (name : Bytes) (parentGroupId : Nat)
  | groupUpdate (g : Group)
  | groupDelete (id : Nat)
  | policyCreate (name : Bytes) (strategy : StrategyType) (effect : PolicyEffect)
      (priority : Int) (rules : Bytes)
  | policyUpdate (p : Policy)
  | policyDelete (id : Nat)
  | roleAssignToUser (rid uid : Nat)
  | roleUnassignFromUser (rid uid : Nat)
  | roleAssignToGroup (rid gid : Nat)
  | roleUnassignFromGroup (rid gid : Nat)
  | groupAddUser (gid uid : Nat)
  | groupRemoveUser (gid uid : Nat)
  | policyAssignTo (pid : Nat) (tt : TargetType) (tid : Nat)
  | policyUnassignFrom (pid : Nat) (tt : TargetType) (tid : Nat)
  deriving DecidableEq, Repr

namespace Mutation

/-- The storage call of each function. A created record starts active and
takes its texts cut to the size of their fields. -/
def storeWrite (s : Store) : Mutation → Except SsoError Store
  | .userCreate u => s.userCreate u
  | .userUpdate u => s.userUpdate u
  | .userDelete id => s.userDelete id
  | .roleCreate name parent =>
    s.roleCreate { id := 0, name := strlcpy 64 name, parentRoleId := parent, status := .active }
  | .roleUpdate r => s.roleUpdate r
  | .roleDelete id => s.roleDelete id
  | .groupCreate name parent =>
    s.groupCreate { id := 0, name := strlcpy 64 name, parentGroupId := parent, status := .active }
  | .groupUpdate g => s.groupUpdate g
  | .groupDelete id => s.groupDelete id
  | .policyCreate name strategy effect priority rules =>
    s.policyCreate
      { id := 0, name := strlcpy 64 name, strategyType := strategy, effect, priority
        rules := strlcpy 8192 rules, status := .enabled }
  | .policyUpdate p => s.policyUpdate p
  | .policyDelete id => s.policyDelete id
  | .roleAssignToUser rid uid => .ok (s.assignRoleToUser rid uid)
  | .roleUnassignFromUser rid uid => .ok (s.unassignRoleFromUser rid uid)
  | .roleAssignToGroup rid gid => .ok (s.assignRoleToGroup rid gid)
  | .roleUnassignFromGroup rid gid => .ok (s.unassignRoleFromGroup rid gid)
  | .groupAddUser gid uid => .ok (s.addUserToGroup gid uid)
  | .groupRemoveUser gid uid => .ok (s.removeUserFromGroup gid uid)
  | .policyAssignTo pid tt tid => .ok (s.assignPolicy pid tt tid)
  | .policyUnassignFrom pid tt tid => .ok (s.unassignPolicy pid tt tid)

/-- The invalidation each function calls after a successful write. The create
functions call none. -/
def invalidation : Mutation → Invalidation
  | .userCreate _ | .roleCreate _ _ | .groupCreate _ _ | .policyCreate _ _ _ _ _ => .none
  | .userUpdate u => .user u.id
  | .userDelete id => .user id
  | .roleUpdate _ | .roleDelete _ | .groupUpdate _ | .groupDelete _ => .all
  | .policyUpdate p => .policy p.id
  | .policyDelete id => .policy id
  | .roleAssignToUser _ uid | .roleUnassignFromUser _ uid => .user uid
  | .roleAssignToGroup _ _ | .roleUnassignFromGroup _ _ => .all
  | .groupAddUser _ uid | .groupRemoveUser _ uid => .user uid
  | .policyAssignTo _ .user tid | .policyUnassignFrom _ .user tid => .user tid
  | .policyAssignTo _ _ _ | .policyUnassignFrom _ _ _ => .all

/-- One management call, run to its end. -/
def run (m : Mutation) (sys : System) : SsoError × System :=
  mutate sys (m.storeWrite sys.store) m.invalidation

end Mutation

end SsoSystem
