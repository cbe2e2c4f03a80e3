/-
SsoSystem.Permission.Engine — the permission engine (src/permission.c): its
three caches and the evaluation of a request.

Level 0 holds compiled rules by policy id (256 slots, linear probing), level
1 the resolved policies of a user (128 slots by user id), level 2 decisions
by user and parameter hash (1024 slots). `evaluateInternal` is composed of
the sections the source runs under separate lock acquisitions (`lookup`,
resolution, `writeL1`, `evalLoop`, `writeL2`), so that the concurrent model
can interleave them.

Evaluation returns `none` when the process would not come back from it (an
invalid dereference in the data strategy, the endless ancestor walk of the
role strategy). Traces, metrics and the audit log are left out.
-/
import SsoSystem.Permission.Resolve
import SsoSystem.Strategy.Dispatch

namespace SsoSystem

open CMem

/-! ## §1 State -/

/-- `policy_cache_entry_t`; a `policyId` of 0 marks an empty slot. -/
structure CacheSlot where
  policyId : Nat
  compiled : Option Compiled

/-- `policy_res_cache_entry_t`. `memcpy` overwrites the first entries of the
array, so `policies` may be longer than `count`. -/
structure ResSlot where
  userId : Nat
  policies : List Policy
  count : Nat
  timestamp : UInt64
  valid : Bool

/-- `result_cache_entry_t`. -/
structure ResultSlot where
  userId : Nat
  paramsHash : UInt32
  allowed : Bool
  timestamp : UInt64
  valid : Bool

/-- `struct permission_engine`. -/
structure Engine where
  cache : Nat → CacheSlot
  cacheCount : Nat
  resCache : Nat → ResSlot
  resultCache : Nat → ResultSlot

/-- `perm_engine_create`. -/
def permEngineCreate : Engine where
  cache := fun _ => { policyId := 0, compiled := none }
  cacheCount := 0
  resCache := fun _ => { userId := 0, policies := [], count := 0, timestamp := 0, valid := false }
  resultCache := fun _ =>
    { userId := 0, paramsHash := 0, allowed := false, timestamp := 0, valid := false }

namespace Engine

/-! ## §2 Compiled rules (level 0) -/

/-- The probe loop shared by lookup, store and invalidation: from `idx` on, the
first slot that satisfies `stop`, in at most `fuel` steps. -/
def probe (stop : CacheSlot → Bool) (cache : Nat → CacheSlot) : Nat → Nat → Option Nat
  | 0, _ => none
  | fuel + 1, idx =>
    if stop (cache idx) then some idx else probe stop cache fuel ((idx + 1) % 256)

variable (eng : Engine) (uid : Nat) (phash : UInt32) (now : UInt64) (allowed : Bool)

/-- The slot where a probe for `id` ends: its own or an empty one. -/
def findSlot (id : Nat) : Option Nat :=
  probe (fun c => c.policyId == id || c.policyId == 0) eng.cache 256 (id % 256)

/-- `perm_engine_get_cached_rule`. -/
def getCachedRule (id : Nat) : Option Compiled :=
  if eng.cacheCount = 0 then none
  else
    match eng.findSlot id with
    | none => none
    | some idx => if (eng.cache idx).policyId = id then (eng.cache idx).compiled else none

/-- `perm_engine_cache_rule`. -/
def cacheRule (id : Nat) (compiled : Compiled) : Engine :=
  if 256 ≤ eng.cacheCount then eng
  else
    match eng.findSlot id with
    | none => eng
    | some idx =>
      { eng with
        cache := Function.update eng.cache idx { policyId := id, compiled := some compiled }
        cacheCount := if (eng.cache idx).policyId = 0 then eng.cacheCount + 1 else eng.cacheCount }

/-! ## §3 Invalidation -/

/-- `perm_engine_cache_invalidate_user`. -/
def invalidateUser : Engine :=
  { eng with
    resultCache := fun i =>
      { eng.resultCache i with
        valid := (eng.resultCache i).valid && (eng.resultCache i).userId != uid }
    resCache := fun i =>
      { eng.resCache i with valid := (eng.resCache i).valid && (eng.resCache i).userId != uid } }

/-- Both loops that clear the decision and the resolution cache. -/
def clearResults : Engine :=
  { eng with
    resultCache := fun i => { eng.resultCache i with valid := false }
    resCache := fun i => { eng.resCache i with valid := false } }

/-- Step 1 of `perm_engine_cache_invalidate_policy`: empties the policy's slot. -/
def dropRule (id : Nat) : Engine :=
  match eng.findSlot id with
  | none => eng
  | some idx =>
    if (eng.cache idx).policyId = id then
      { eng with
        cache := Function.update eng.cache idx { eng.cache idx with policyId := 0 }
        cacheCount := eng.cacheCount - 1 }
    else eng

/-- `perm_engine_cache_invalidate_policy`. -/
def invalidatePolicy (id : Nat) : Engine := (eng.dropRule id).clearResults

/-- `perm_engine_cache_invalidate_all`. -/
def invalidateAll : Engine :=
  { eng.clearResults with
    cache := fun i => { eng.cache i with policyId := 0 }
    cacheCount := 0 }

/-! ## §4 Sections of an evaluation -/

/-- Level 2 lookup: the cached decision, when the slot holds this user and
hash and is younger than 30 s. -/
def lookupL2 : Option Bool :=
  let e := eng.resultCache (phash.toNat % 1024)
  if e.valid ∧ e.userId = uid ∧ e.paramsHash = phash ∧ now - e.timestamp < 30000 then
    some e.allowed
  else none

/-- Whether the user's level 1 slot holds this user and is younger than 60 s. -/
def hitL1 : Bool :=
  let e := eng.resCache (uid % 128)
  e.valid && e.userId == uid && decide (now - e.timestamp < 60000)

/-- The policies an evaluation that hit level 1 reads: the first `count`
entries of the slot's array, as it is when it reads them. -/
def readL1 (count : Nat) : List Policy :=
  (eng.resCache (uid % 128)).policies.take count

/-- Fills the level 1 slot under the write lock, unless another thread already has. -/
def writeL1 (ps : List Policy) : Engine :=
  if eng.hitL1 uid now then eng
  else
    { eng with
      resCache := Function.update eng.resCache (uid % 128)
        { userId := uid
          policies := ps ++ (eng.resCache (uid % 128)).policies.drop ps.length
          count := ps.length
          timestamp := now
          valid := true } }

/-- Stores a decision under the write lock. -/
def writeL2 : Engine :=
  { eng with
    resultCache := Function.update eng.resultCache (phash.toNat % 1024)
      { userId := uid, paramsHash := phash, allowed, timestamp := now, valid := true } }

end Engine

/-! ## §5 Evaluation -/

variable (V : Vendor) (h : Heap) (s : Store) (eng : Engine) (now : UInt64)
  (p : Policy) (ctx : EvalContext)

/-- The compiled rule of a policy: cached, or compiled now and cached. -/
def compiledFor : Option Compiled × Engine :=
  match eng.getCachedRule p.id with
  | some c => (some c, eng)
  | none =>
    match compileRules V p.strategyType p.rules with
    | some c => (some c, eng.cacheRule p.id c)
    | none => (none, eng)

/-- `perm_engine_evaluate_policy`. -/
def evaluatePolicy : Option (StrategyResult × EvalContext × Engine) :=
  if p.status = .disabled then some ((.notFound, false), ctx, eng)
  else if !p.strategyType.registered then some ((.strategyNotFound, false), ctx, eng)
  else
    let (compiled, eng') := compiledFor V eng p
    (strategyEvaluate V h s p.strategyType compiled ctx).map fun (r, ctx') => (r, ctx', eng')

/-- The policy loop of `perm_engine_evaluate_internal`: an error skips the
policy, the first deny ends the loop, an allow is remembered. -/
def evalLoop (V : Vendor) (h : Heap) (s : Store) :
    List Policy → Bool → Engine → EvalContext → Option (Bool × EvalContext × Engine)
  | [], anyAllowed, eng, ctx => some (anyAllowed, ctx, eng)
  | p :: ps, anyAllowed, eng, ctx =>
    match evaluatePolicy V h s eng p ctx with
    | none => none
    | some ((.ok, true), ctx', eng') => evalLoop V h s ps true eng' ctx'
    | some ((.ok, false), ctx', eng') => some (false, ctx', eng')
    | some (_, ctx', eng') => evalLoop V h s ps anyAllowed eng' ctx'

/-- From the resolved policies on: no policies is the uncached default deny,
otherwise the loop decides and the decision is cached. -/
def decideOn (ps : List Policy) : Option (Bool × EvalContext × Engine) :=
  if ps = [] then some (false, ctx, eng)
  else
    (evalLoop V h s ps false eng ctx).map fun (allowed, ctx', eng') =>
      (allowed, ctx', eng'.writeL2 ctx.userId (hashParams ctx) now allowed)

/-- `perm_engine_evaluate_internal` for a context with a user: the decision,
the context with its outputs, and the engine. The return code is `SSO_OK`
whenever it returns. -/
def evaluateInternal : Option (Bool × EvalContext × Engine) :=
  match eng.lookupL2 ctx.userId (hashParams ctx) now with
  | some allowed => some (allowed, ctx, eng)
  | none =>
    if eng.hitL1 ctx.userId now then
      decideOn V h s eng now ctx
        (eng.readL1 ctx.userId (eng.resCache (ctx.userId % 128)).count)
    else
      let ps := policyResolveForUser s ctx.userId 64
      decideOn V h s (if ps = [] then eng else eng.writeL1 ctx.userId now ps) now ctx ps

end SsoSystem
