/-
SsoSystem.Types — error codes, enumerations and entity records (include/sso.h,
user.h, role.h, group.h, policy.h).

Ids (`sso_id_t`) are `Nat`: they are 64-bit in the source and handed out by
counters that start at 1; 0 is `SSO_ID_NONE`. A record keeps the fields some modelled
function reads; creation and update times and descriptions are left out.
-/
import SsoSystem.Lib.CMem

namespace SsoSystem

open CMem

/-- `sso_error_t`. -/
inductive SsoError where
  | ok | general | notFound | alreadyExists | invalidParam | noPermission | authFailed
  | tokenExpired | tokenInvalid | storage | strategyConflict | strategyNotFound
  | ruleInvalid | outOfMemory | notImplemented | rateLimit | socket | bind | listen
  | init | curl | oauthInvalidClient | oauthInvalidGrant | oauthInvalidScope
  | oauthUnsupportedGrantType | passwordExpired
  deriving DecidableEq, Repr

variable {α ε : Type} {c : Prop} {err : ε}

theorem ok_of_toOption {x : Except ε α} {a : α} (h : x.toOption = some a) : x = .ok a := by
  cases x with
  | error err => cases h
  | ok b => exact congrArg Except.ok (Option.some.inj h)

theorem ok_of_then [Decidable c] {a b : α}
    (h : (if c then .ok a else .error err : Except ε α) = .ok b) : c ∧ a = b := by
  split at h
  · next hc => exact ⟨hc, Except.ok.inj h⟩
  · cases h

theorem ok_of_else [Decidable c] {a b : α}
    (h : (if c then .error err else .ok a : Except ε α) = .ok b) : ¬c ∧ a = b := by
  split at h
  · cases h
  · next hc => exact ⟨hc, Except.ok.inj h⟩

/-- `user_status_t`. The enumerations of the records are C `int`s, and the admin API
stores whatever number it is given, so each has room for the others. -/
inductive UserStatus where
  | inactive | active | locked
  | other (code : Int)
  deriving DecidableEq, Repr

inductive RoleStatus where
  | inactive | active
  | other (code : Int)
  deriving DecidableEq, Repr

inductive GroupStatus where
  | inactive | active
  | other (code : Int)
  deriving DecidableEq, Repr

/-- `policy_target_type_t`. -/
inductive TargetType where
  | user | role | group
  | other (code : Int)
  deriving DecidableEq, Repr

inductive PolicyEffect where
  | deny | allow
  | other (code : Int)
  deriving DecidableEq, Repr

inductive PolicyStatus where
  | disabled | enabled
  | other (code : Int)
  deriving DecidableEq, Repr

/-- `perm_strategy_type_t`, with the numbers no strategy is registered for. -/
inductive StrategyType where
  | functional | api | data | rbac | location | abac | lbac
  | other (code : Int)
  deriving DecidableEq, Repr

/-- `user_t`; the fields a user may lack are empty or 0 unless given. -/
structure User where
  id : Nat
  username : Bytes
  phone : Bytes
  status : UserStatus
  passwordHash : Bytes := []
  passwordSetAt : Int64 := 0
  email : Bytes := []
  displayName : Bytes := []
  attributes : Bytes := []
  mfaEnabled : Bool := false
  mfaSecret : Bytes := []
  deriving DecidableEq, Repr

structure Role where
  id : Nat
  name : Bytes
  parentRoleId : Nat
  status : RoleStatus
  deriving DecidableEq, Repr

structure Group where
  id : Nat
  name : Bytes
  parentGroupId : Nat
  status : GroupStatus
  deriving DecidableEq, Repr

structure Policy where
  id : Nat
  name : Bytes
  strategyType : StrategyType
  effect : PolicyEffect
  priority : Int
  rules : Bytes
  status : PolicyStatus
  deriving DecidableEq, Repr

/-- `strcmp(a, b) == 0`. -/
def strEq (a b : Bytes) : Bool := cstr a == cstr b

end SsoSystem
