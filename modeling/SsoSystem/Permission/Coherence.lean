/-
SsoSystem.Permission.Coherence — histories of management calls and checks.

A history is a run of a `System` from an empty store and empty caches, one
call at a time.
-/
import SsoSystem.Lib.Run
import SsoSystem.Permission.ResolveTheorems

namespace SsoSystem

open CMem Run

/-! ## §1 Histories -/

/-- One call. A check comes with the memory it finds and the time it reads. -/
inductive Event where
  | manage (m : Mutation)
  | check (h : Heap) (now : UInt64) (uid : Nat) (req : CheckRequest)

variable (V : Vendor) (reqs : Set CheckRequest) (sys : System)

/-- One call, run to its end; `none` when it does not return. -/
def Event.step : Event → Option System
  | .manage m => some (m.run sys).2
  | .check h now uid req => (permCheck V h sys now uid req).map Prod.snd

/-- A store and an engine as `sso_init` creates them. -/
def System.init : System where
  store := memOpen
  engine := permEngineCreate

def history (evs : List Event) : Option System := run (Event.step V) evs .init

/-! ## §2 Promises of the callers -/

/-- `hash_params` of a request; the user is not among the bytes it covers. -/
def CheckRequest.paramsHash (req : CheckRequest) : UInt32 :=
  hashParams (req.context { id := 0, username := [], phone := [], status := .active })

/-- Whether the data strategy sees a NULL record in this request. -/
def CheckRequest.recordNull (req : CheckRequest) : Prop := req.params.leNat 64 8 = 0

/-- What a management call may assume: assignments name existing records, and
policy ids stay different modulo 256. -/
def Mutation.inDomain (s : Store) : Mutation → Prop
  | .roleAssignToUser rid uid => (s.roleGetById rid).isSome ∧ (s.userGetById uid).isSome
  | .roleAssignToGroup rid gid => (s.roleGetById rid).isSome ∧ (s.groupGetById gid).isSome
  | .groupAddUser gid uid => (s.groupGetById gid).isSome ∧ (s.userGetById uid).isSome
  | .policyAssignTo pid tt tid => (s.policyGetById pid).isSome ∧ s.targetExists tt tid
  | .policyCreate _ _ _ _ _ => ∀ p ∈ s.policies, p.id % 256 ≠ s.nextPid % 256
  | _ => True

def InDomain : Event → Prop
  | .manage m => m.inDomain sys.store
  | .check _ _ _ req => req ∈ reqs ∧ req.recordNull

/-- Different requests of the set have different hashes. -/
def HashesDiffer : Prop :=
  ∀ r ∈ reqs, ∀ r' ∈ reqs, r.paramsHash = r'.paramsHash → r = r'

/-! ## §3 Coherence -/

/-- Every check decides what it would decide with empty caches. -/
def Coherent : Prop :=
  ∀ h now uid req, req ∈ reqs → req.recordNull →
    (permCheck V h sys now uid req).map (·.1.allowed) = checkDecision V h sys.store now uid req

/-- No record of the store waits for the record a create call adds: the new
role or group is not yet the parent of another, and when a role is created
every user's effective roles can be computed. -/
def Mutation.parentsKnown (s : Store) : Mutation → Prop
  | .roleCreate _ _ => (∀ r ∈ s.roles, r.parentRoleId ≠ s.nextRid) ∧
      ∀ uid, (s.getUserRolesWithAncestors uid 128).isSome
  | .groupCreate _ _ => ∀ g ∈ s.groups, g.parentGroupId ≠ s.nextGid
  | _ => True

def ParentsKnown : Event → Prop
  | .manage m => m.parentsKnown sys.store
  | .check _ _ _ _ => True

end SsoSystem
