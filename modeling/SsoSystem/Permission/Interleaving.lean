/-
SsoSystem.Permission.Interleaving — evaluations and management calls of many
threads, interleaved lock section by lock section.

An evaluation (`perm_engine_evaluate_internal`) takes the engine's lock up
to four times: to look up levels 2 and 1, to fill level 1, for the policy
loop, and to fill level 2; the policies are resolved between the first two
without any lock. A management call writes the store without a lock and
then invalidates under the lock. Each of these sections is one step here
(`step`). An evaluation that hit level 1 keeps a pointer into the slot and
the count it saw, and reads the policies through it in its loop.
-/
import SsoSystem.Lib.Timeline
import SsoSystem.Permission.WriteTheorems

namespace SsoSystem

open CMem Run Versions

/-! ## §1 Threads -/

/-- A policy with the compiled rule it is evaluated by. -/
abbrev RuledPolicy := Policy × Option Compiled

/-- Where an evaluation stands between two sections. -/
inductive EvalPhase where
  /-- neither cache had an answer -/
  | missed
  /-- level 1 hit: a pointer to the slot's array and this count -/
  | hit (count : Nat)
  /-- resolved into an own buffer, level 1 not yet filled -/
  | resolved (ps : List Policy)
  /-- level 1 filled -/
  | listed (ps : List Policy)
  /-- the loop is done, level 2 not yet filled -/
  | decided (used : List RuledPolicy) (allowed : Bool)

/-- An evaluation under way. `since` lists the writes that had returned when it began. -/
structure Evaluation where
  ctx : EvalContext
  now : UInt64
  phase : EvalPhase
  since : List Nat

/-- A management call between its write, number `version`, and its invalidation. -/
structure PendingCall where
  invalidation : Invalidation
  version : Nat

/-- The engine, the store and the threads at work on them. -/
structure Threads where
  store : Store
  engine : Engine
  evals : Nat → Option Evaluation
  calls : Nat → Option PendingCall
  timeline : Timeline Store
  returned : List Nat
  origin : Nat → List RuledPolicy

def Threads.init : Threads where
  store := memOpen
  engine := permEngineCreate
  evals := fun _ => none
  calls := fun _ => none
  timeline := .start memOpen
  returned := []
  origin := fun _ => []

/-! ## §2 Sections -/

/-- The next section of a thread. -/
inductive Section where
  | lookup (t : Nat) (ctx : EvalContext) (now : UInt64)
  | resolve (t : Nat)
  | writeL1 (t : Nat)
  | loop (t : Nat) (h : Heap)
  | writeL2 (t : Nat)
  | write (t : Nat) (m : Mutation)
  | invalidate (t : Nat)

/-- The policies with the rules a loop over them takes from the cache or compiles. -/
def ruled (V : Vendor) (eng : Engine) (ps : List Policy) : List RuledPolicy :=
  ps.map fun p => (p, (compiledFor V eng p).1)

/-- The policies an evaluation is about to loop over. -/
def Evaluation.policies (e : Evaluation) (eng : Engine) : Option (List Policy) :=
  match e.phase with
  | .hit count => some (eng.readL1 e.ctx.userId count)
  | .listed ps => some ps
  | _ => none

namespace Threads

variable (V : Vendor) (σ : Threads)

def setEval (t : Nat) (e : Option Evaluation) : Threads :=
  { σ with evals := Function.update σ.evals t e }

variable (t : Nat) (h : Heap) (e : Evaluation)

/-- Phases 1 and 2: an answer from level 2, or an empty list in level 1, ends
the evaluation. -/
def lookup (ctx : EvalContext) (now : UInt64) : Threads :=
  match σ.engine.lookupL2 ctx.userId (hashParams ctx) now with
  | some _ => σ
  | none =>
    if σ.engine.hitL1 ctx.userId now then
      let count := (σ.engine.resCache (ctx.userId % 128)).count
      if count = 0 then σ
      else σ.setEval t (some { ctx, now, phase := .hit count, since := σ.returned })
    else σ.setEval t (some { ctx, now, phase := .missed, since := σ.returned })

/-- Phase 2b: no policies is the default deny, which is not cached. -/
def resolve : Threads :=
  let ps := policyResolveForUser σ.store e.ctx.userId 64
  σ.setEval t (if ps = [] then none else some { e with phase := .resolved ps })

def writeL1 (ps : List Policy) : Threads :=
  { σ.setEval t (some { e with phase := .listed ps }) with
    engine := σ.engine.writeL1 e.ctx.userId e.now ps }

/-- The policy loop; `none` when it does not return. -/
def loop (ps : List Policy) : Option Threads :=
  (evalLoop V h σ.store ps false σ.engine e.ctx).map fun (allowed, _, engine) =>
    { σ.setEval t (some { e with phase := .decided (ruled V σ.engine ps) allowed }) with engine }

def writeL2 (used : List RuledPolicy) (allowed : Bool) : Threads :=
  { σ.setEval t none with
    engine := σ.engine.writeL2 e.ctx.userId (hashParams e.ctx) e.now allowed
    origin := Function.update σ.origin ((hashParams e.ctx).toNat % 1024) used }

/-- The storage call; a refused one ends the management call. -/
def write (m : Mutation) : Threads :=
  match m.storeWrite σ.store with
  | .error _ => σ
  | .ok store =>
    { σ with
      store
      timeline := σ.timeline.push store
      calls := Function.update σ.calls t
        (some { invalidation := m.invalidation, version := σ.timeline.last + 1 }) }

def invalidate (c : PendingCall) : Threads :=
  { σ with
    engine := c.invalidation.apply σ.engine
    calls := Function.update σ.calls t none
    returned := c.version :: σ.returned }

/-- One section of one thread, where the thread is at that section. -/
def step : Section → Option Threads
  | .lookup t ctx now =>
    match σ.evals t with
    | none => some (σ.lookup t ctx now)
    | some _ => none
  | .resolve t =>
    match σ.evals t with
    | some e =>
      match e.phase with
      | .missed => some (σ.resolve t e)
      | _ => none
    | none => none
  | .writeL1 t =>
    match σ.evals t with
    | some e =>
      match e.phase with
      | .resolved ps => some (σ.writeL1 t e ps)
      | _ => none
    | none => none
  | .loop t h =>
    match σ.evals t with
    | some e =>
      match e.policies σ.engine with
      | some ps => σ.loop V t h e ps
      | none => none
    | none => none
  | .writeL2 t =>
    match σ.evals t with
    | some e =>
      match e.phase with
      | .decided used allowed => some (σ.writeL2 t e used allowed)
      | _ => none
    | none => none
  | .write t m =>
    match σ.calls t with
    | none => some (σ.write t m)
    | some _ => none
  | .invalidate t =>
    match σ.calls t with
    | some c => some (σ.invalidate t c)
    | none => none

end Threads

/-- The state after an interleaving of sections. -/
def interleave (V : Vendor) (secs : List Section) : Option Threads :=
  run (Threads.step V) secs .init

/-! ## §3 Freshness -/

/-- What a store says a user's policies are. -/
def listView (uid : Nat) (s : Store) : Option (List Policy) :=
  some (policyResolveForUser s uid 64)

/-- What a store says a policy's rules compile to. -/
def ruleView (V : Vendor) (id : Nat) (s : Store) : Option (Option Compiled) :=
  (s.policyGetById id).map fun p => compileRules V p.strategyType p.rules

/-- A policy set that includes the given writes: the list is one the user's
policies resolved to, each rule is one its policy had, and none of the
writes changed either afterwards. -/
structure SetFresh (V : Vendor) (T : Timeline Store) (done : List Nat) (uid : Nat)
    (used : List RuledPolicy) : Prop where
  list : Fresh T done (listView uid) (used.map Prod.fst)
  rules : ∀ x ∈ used, Fresh T done (ruleView V x.1.id) x.2

/-- The policy set an evaluation decides on, as far as it is known. -/
def Evaluation.policySet (V : Vendor) (e : Evaluation) (eng : Engine) : Option (List RuledPolicy) :=
  match e.phase with
  | .missed => none
  | .hit count => some (ruled V eng (eng.readL1 e.ctx.userId count))
  | .resolved ps => some (ruled V eng ps)
  | .listed ps => some (ruled V eng ps)
  | .decided used _ => some used

/-- What has returned is seen: cached lists and cached decisions include every
write whose call has returned, and an evaluation under way decides on a set
that includes every write whose call had returned when it began. -/
structure FreshState (V : Vendor) (σ : Threads) : Prop where
  lists : ∀ i, (σ.engine.resCache i).valid = true →
    Fresh σ.timeline σ.returned (listView (σ.engine.resCache i).userId)
      ((σ.engine.resCache i).policies.take (σ.engine.resCache i).count)
  decisions : ∀ i, (σ.engine.resultCache i).valid = true →
    SetFresh V σ.timeline σ.returned (σ.engine.resultCache i).userId (σ.origin i)
  evaluations : ∀ t e, σ.evals t = some e → ∀ used, e.policySet V σ.engine = some used →
    SetFresh V σ.timeline e.since e.ctx.userId used

/-! ## §4 Undisturbed sections -/

/-- What a management call may assume so that its invalidation covers whoever
it concerns: assignments name existing records, a created role or group is
not yet somebody's parent, and there are no more than 256 policies. -/
def Mutation.concernsCovered (s : Store) : Mutation → Prop
  | .roleAssignToUser rid _ => (s.roleGetById rid).isSome
  | .groupAddUser gid _ => (s.groupGetById gid).isSome
  | .policyAssignTo pid _ _ => (s.policyGetById pid).isSome
  | .policyCreate _ _ _ _ _ => s.nextPid ≤ 256
  | .roleCreate _ _ => ∀ r ∈ s.roles, r.parentRoleId ≠ s.nextRid
  | .groupCreate _ _ => ∀ g ∈ s.groups, g.parentGroupId ≠ s.nextGid
  | _ => True

/-- No invalidation runs into an evaluation of a user it covers, and no level 1
slot is refilled while an evaluation points into it. -/
def Undisturbed (σ : Threads) : Section → Prop
  | .invalidate t => ∀ c, σ.calls t = some c → ∀ t' e, σ.evals t' = some e →
      ¬ c.invalidation.covers e.ctx.userId
  | .writeL1 t => ∀ e, σ.evals t = some e → σ.engine.hitL1 e.ctx.userId e.now = false →
      ∀ t' e' count, σ.evals t' = some e' → e'.phase = .hit count →
        e'.ctx.userId % 128 ≠ e.ctx.userId % 128
  | .write _ m => m.concernsCovered σ.store
  | _ => True

end SsoSystem
