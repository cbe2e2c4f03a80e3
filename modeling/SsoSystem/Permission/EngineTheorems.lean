/-
SsoSystem.Permission.EngineTheorems — what an evaluation decides.

Every policy casts a vote on a request (`vote`): it says nothing, allows,
denies, or its strategy does not return. With a rule cache that holds
correct compilations the policy loop is the deny-override combination of
these votes (`evalLoop_eq_combine`), so the result of an evaluation that
misses the decision cache depends on the votes only
(`evaluateInternal_of_miss`).
-/
import SsoSystem.Lib.DenyOverride
import SsoSystem.Permission.Check
import SsoSystem.Permission.ViewTheorems
import SsoSystem.Storage.MemoryTheorems

namespace SsoSystem

open CMem DenyOverride List Option Function Engine

/-! ## §1 Votes -/

/-- A strategy's answer as a vote; any error means the policy does not match. -/
def voteOf : Option StrategyResult → Vote
  | none => .stuck
  | some (.ok, true) => .allow
  | some (.ok, false) => .deny
  | some _ => .skip

/-- What a policy says to a request when its rules are compiled afresh. -/
def vote (V : Vendor) (h : Heap) (s : Store) (ctx : EvalContext) (p : Policy) : Vote :=
  if p.status = .disabled then .skip
  else if !p.strategyType.registered then .skip
  else voteOf ((strategyEvaluate V h s p.strategyType
    (compileRules V p.strategyType p.rules) ctx).map Prod.fst)

variable {V : Vendor} {h : Heap} {s : Store} {ctx : EvalContext} {eng : Engine} {id i : Nat}
  {ps : List Policy} {now : UInt64} {inv : Invalidation}

variable {ctx' : EvalContext} {s' : Store} {uid : Nat} {h' : Heap} {c : Compiled} {p : Policy}
  {eng' : Engine} {r : StrategyResult} {all : List Policy} {out : Bool × EvalContext × Engine}

/-- A vote depends on what the context shows. -/
theorem vote_congr (hv : SameView ctx ctx') : vote V h s ctx = vote V h s ctx' := by
  funext p
  unfold vote strategyEvaluate
  cases hc : compileRules V p.strategyType p.rules with
  | none => rfl
  | some c => simp only [evaluateCompiled_congr hv]

theorem userHasRole_congr (hr : s.roles = s'.roles)
    (hu : s.getUserRoles uid 64 = s'.getUserRoles uid 64) :
    userHasRole s uid = userHasRole s' uid := by
  funext name
  unfold userHasRole Store.roleGetByName
  rw [Store.userRolesWithAncestors_congr hr hu, hr]

/-- Of the store, a strategy reads the user's roles only. -/
theorem evaluateCompiled_store_congr
    (hrole : userHasRole s ctx.userId = userHasRole s' ctx.userId) (t : StrategyType)
    (c : Compiled) :
    evaluateCompiled V h s ctx t c = evaluateCompiled V h s' ctx t c := by
  have hrbac : ∀ items, rbacEvaluate s items ctx = rbacEvaluate s' items ctx := by
    intro items
    unfold rbacEvaluate
    rw [hrole]
  unfold evaluateCompiled
  split <;> simp only [hrbac]

theorem vote_store_congr (hrole : userHasRole s ctx.userId = userHasRole s' ctx.userId) :
    vote V h s ctx = vote V h s' ctx := by
  funext p
  unfold vote strategyEvaluate
  simp only [evaluateCompiled_store_congr hrole]

theorem dataEvaluate_heap_congr (hread : h.readStr ctx.record = h'.readStr ctx.record)
    (V : Vendor) (rule : DataRule) :
    (dataEvaluate V h rule ctx).map Prod.fst = (dataEvaluate V h' rule ctx).map Prod.fst := by
  have hrec : dataRecordCheck V h rule ctx.record = dataRecordCheck V h' rule ctx.record := by
    unfold dataRecordCheck
    rw [hread]
  have hfil : (dataFilter h rule ctx).map (fun _ => ()) =
      (dataFilter h' rule ctx).map fun _ => () := by
    unfold dataFilter
    split
    · rfl
    · split
      · cases rule.allowedFields.mapM id with
        | none => rfl
        | some fields => rfl
      · rfl
  unfold dataEvaluate
  rw [hrec]
  split
  · rfl
  · split
    · rfl
    · have hres := congrArg (Option.map fun _ => ((.ok, rule.isAllow) : StrategyResult)) hfil
      rw [Option.map_map, Option.map_map] at hres ⊢
      exact hres
    · rfl

/-- Of the memory, a vote depends on the record only. -/
theorem vote_heap_congr (hread : h.readStr ctx.record = h'.readStr ctx.record) (s : Store) :
    vote V h s ctx = vote V h' s ctx := by
  funext p
  unfold vote strategyEvaluate
  cases compileRules V p.strategyType p.rules with
  | none => rfl
  | some c =>
    have heval : (evaluateCompiled V h s ctx p.strategyType c).map Prod.fst =
        (evaluateCompiled V h' s ctx p.strategyType c).map Prod.fst := by
      unfold evaluateCompiled
      split
      case h_3 => exact dataEvaluate_heap_congr hread V _
      all_goals rfl
    simp only [heval]

/-! ## §2 The rule cache -/

/-- Every slot that holds one of these policies holds its compiled rules. -/
def RuleCacheOk (V : Vendor) (eng : Engine) (ps : List Policy) : Prop :=
  ∀ i, ∀ p ∈ ps, (eng.cache i).policyId = p.id →
    (eng.cache i).compiled = compileRules V p.strategyType p.rules

/-- One id, one policy: what a list loaded from a store satisfies. -/
def IdsConsistent (ps : List Policy) : Prop := ∀ p ∈ ps, ∀ q ∈ ps, p.id = q.id → p = q

/-- A rule is found in the slot the probing ends at. -/
theorem getCachedRule_eq_some (hg : eng.getCachedRule id = some c) :
    ∃ i, eng.findSlot id = some i ∧ (eng.cache i).policyId = id ∧ (eng.cache i).compiled =
      some c := by
  unfold getCachedRule at hg
  split at hg
  · cases hg
  · cases hf : eng.findSlot id with
    | none => simp [hf] at hg
    | some idx =>
      simp only [hf] at hg
      split at hg
      · next hid => exact ⟨idx, rfl, hid, hg⟩
      · cases hg

/-- The probing ends at once if the first slot is free or the policy's own. -/
theorem findSlot_home
    (hslot : (eng.cache (id % 256)).policyId = 0 ∨ (eng.cache (id % 256)).policyId = id) :
    eng.findSlot id = some (id % 256) := by
  unfold findSlot probe
  rw [if_pos]
  rcases hslot with h0 | hid
  · simp [h0]
  · simp [hid]

/-- Caching a rule writes its home slot. -/
theorem cacheRule_slot
    (hslot : (eng.cache (id % 256)).policyId = 0 ∨ (eng.cache (id % 256)).policyId = id)
    (c : Compiled) (i : Nat) : (eng.cacheRule id c).cache i = eng.cache i ∨
      i = id % 256 ∧ (eng.cacheRule id c).cache i = { policyId := id, compiled := some c } := by
  unfold cacheRule
  rw [findSlot_home hslot]
  split
  · exact .inl rfl
  · by_cases hi : i = id % 256
    · exact .inr ⟨hi, by simp [hi]⟩
    · exact .inl (update_of_ne hi ..)

/-- A rule that was just compiled may be cached. -/
theorem RuleCacheOk.cacheRule (hok : RuleCacheOk V eng ps) (hcons : IdsConsistent ps) {q : Policy}
    (hq : q ∈ ps) (hc : compileRules V q.strategyType q.rules = some c) :
    RuleCacheOk V (eng.cacheRule q.id c) ps := by
  unfold Engine.cacheRule
  split
  · exact hok
  · cases hf : eng.findSlot q.id with
    | none => exact hok
    | some idx =>
      intro i p hp hid
      by_cases hi : i = idx
      · subst hi
        simp only [update_self] at hid ⊢
        rw [← hcons q hq p hp hid, hc]
      · simp only [update_of_ne hi] at hid ⊢
        exact hok i p hp hid

/-- With a correct cache, `compiledFor` yields the policy's own rules and keeps
the cache correct; the other caches are left alone. -/
theorem compiledFor_spec (hok : RuleCacheOk V eng ps) (hcons : IdsConsistent ps) (hp : p ∈ ps) :
    (compiledFor V eng p).1 = compileRules V p.strategyType p.rules ∧
      RuleCacheOk V (compiledFor V eng p).2 ps := by
  unfold compiledFor
  cases hg : eng.getCachedRule p.id with
  | some c =>
    obtain ⟨i, -, hid, hci⟩ := getCachedRule_eq_some hg
    exact ⟨by rw [← hok i p hp hid, hci], hok⟩
  | none =>
    cases hc : compileRules V p.strategyType p.rules with
    | some c => exact ⟨rfl, hok.cacheRule hcons hp hc⟩
    | none => exact ⟨rfl, hok⟩

/-! ## §3 One policy -/

/-- A policy leaves the context alone unless its strategy is reached. -/
theorem evaluatePolicy_cases (he : evaluatePolicy V h s eng p ctx = some (r, ctx', eng')) :
    (r.1 ≠ .ok ∧ ctx' = ctx) ∨ ∃ c, (compiledFor V eng p).1 = some c ∧
      evaluateCompiled V h s ctx p.strategyType c = some (r, ctx') := by
  unfold evaluatePolicy at he
  split at he
  · cases he
    exact .inl ⟨nofun, rfl⟩
  · split at he
    · cases he
      exact .inl ⟨nofun, rfl⟩
    · obtain ⟨⟨r', ctx''⟩, hs, hpair⟩ := map_eq_some_iff.mp he
      cases hpair
      unfold strategyEvaluate at hs
      split at hs
      · cases hs
        exact .inl ⟨nofun, rfl⟩
      · next c hc => exact .inr ⟨c, hc, hs⟩

/-- Of the context, an evaluation writes the field filter at most, and only over one that may
be freed. -/
theorem evaluatePolicy_filter (he : evaluatePolicy V h s eng p ctx = some (r, ctx', eng')) :
    ctx' = ctx ∨ ctx.fieldFilterFreeable = true ∧ ∃ fields, ctx' = ctx.setFieldFilter h fields := by
  rcases evaluatePolicy_cases he with ⟨-, h⟩ | ⟨c, -, hc⟩
  · exact .inl h
  · rcases evaluateCompiled_cases hc with ⟨-, h⟩ | ⟨rule, -, hdata⟩
    · exact .inl h
    · rcases dataEvaluate_cases hdata with ⟨-, h⟩ | ⟨-, -, -, ⟨-, h⟩ | ⟨-, hfree, fields, -, h⟩⟩
      · exact .inl h
      · exact .inl h
      · exact .inr ⟨hfree, fields, h⟩

/-- With the right rules cached, one turn of the loop is the vote of its policy. -/
theorem evaluatePolicy_spec (hok : RuleCacheOk V eng ps) (hcons : IdsConsistent ps)
    (hp : p ∈ ps) (h : Heap) (s : Store) (ctx : EvalContext) :
    (evaluatePolicy V h s eng p ctx = none ∧ vote V h s ctx p = .stuck) ∨
    ∃ r ctx' eng', evaluatePolicy V h s eng p ctx = some (r, ctx', eng') ∧
      voteOf (some r) = vote V h s ctx p ∧ SameView ctx' ctx ∧ RuleCacheOk V eng' ps := by
  obtain ⟨hcomp, hok'⟩ := compiledFor_spec hok hcons hp
  unfold evaluatePolicy vote
  split
  · exact .inr ⟨_, ctx, eng, rfl, rfl, .refl _, hok⟩
  · split
    · exact .inr ⟨_, ctx, eng, rfl, rfl, .refl _, hok⟩
    · simp only [hcomp]
      cases hc : compileRules V p.strategyType p.rules with
      | none => exact .inr ⟨_, ctx, _, rfl, rfl, .refl _, hok'⟩
      | some c =>
        simp only [strategyEvaluate]
        cases he : evaluateCompiled V h s ctx p.strategyType c with
        | none => exact .inl ⟨rfl, rfl⟩
        | some out =>
          obtain ⟨r, ctx'⟩ := out
          exact .inr ⟨r, ctx', _, rfl, rfl, sameView_of_evaluateCompiled hc he, hok'⟩

/-! ## §4 The policy loop -/

/-- The loop is the deny-override combination of the votes on the request as it came in. -/
theorem evalLoop_eq_combine (hcons : IdsConsistent all) {ctx₀ : EvalContext} :
    ∀ {ps : List Policy} {any : Bool}
    {eng : Engine} {ctx : EvalContext}, (∀ p ∈ ps, p ∈ all) → RuleCacheOk V eng all →
    SameView ctx ctx₀ →
    (evalLoop V h s ps any eng ctx).map Prod.fst = combine (ps.map (vote V h s ctx₀)) any
  | [], any, eng, ctx, _, _, _ => rfl
  | p :: ps, any, eng, ctx, hmem, hok, hview => by
    have hrest : ∀ q ∈ ps, q ∈ all := fun q hq => hmem q (mem_cons_of_mem _ hq)
    have hvote : vote V h s ctx p = vote V h s ctx₀ p := congrFun (vote_congr hview) p
    simp only [map_cons, ← hvote]
    rcases evaluatePolicy_spec hok hcons (hmem p (mem_cons_self ..)) h s ctx with
      ⟨hnone, hstuck⟩ | ⟨r, ctx', eng', hsome, hr, hview', hok'⟩
    · simp [evalLoop, hnone, hstuck, combine]
    · have ih : ∀ any, (evalLoop V h s ps any eng' ctx').map Prod.fst =
          combine (ps.map (vote V h s ctx₀)) any :=
        fun any => evalLoop_eq_combine hcons hrest hok' (hview'.trans hview)
      rw [← hr]
      obtain ⟨err, res⟩ := r
      cases err with
      | ok =>
        cases res with
        | true => simpa [evalLoop, hsome, voteOf, combine] using ih true
        | false => simp [evalLoop, hsome, voteOf, combine]
      | _ => simpa [evalLoop, hsome, voteOf, combine] using ih any

variable {any : Bool}

/-- The loop ends with the first policy if that denies, and goes on behind it otherwise. -/
theorem evalLoop_cons (he : evalLoop V h s (p :: ps) any eng ctx = some out) :
    ∃ r ctx' eng', evaluatePolicy V h s eng p ctx = some (r, ctx', eng') ∧
      (r = (.ok, false) ∧ out = (false, ctx', eng') ∨
        r ≠ (.ok, false) ∧ ∃ any', evalLoop V h s ps any' eng' ctx' = some out) := by
  rw [evalLoop] at he
  split at he
  · cases he
  · next hp => exact ⟨_, _, _, hp, .inr ⟨by simp, _, he⟩⟩
  · next hp =>
    cases he
    exact ⟨_, _, _, hp, .inl ⟨rfl, rfl⟩⟩
  · next hfalse hp => exact ⟨_, _, _, hp, .inr ⟨hfalse, _, he⟩⟩

/-- The loop leaves a context that looks the same. -/
theorem sameView_evalLoop (hcons : IdsConsistent all) :
    ∀ {ps : List Policy} {any : Bool} {eng : Engine}
    {ctx : EvalContext} {out : Bool × EvalContext × Engine}, (∀ p ∈ ps, p ∈ all) →
    RuleCacheOk V eng all → evalLoop V h s ps any eng ctx = some out →
    SameView out.2.1 ctx ∧ RuleCacheOk V out.2.2 all
  | [], any, eng, ctx, out, _, hok, he => by
    cases he
    exact ⟨.refl _, hok⟩
  | p :: ps, any, eng, ctx, out, hmem, hok, he => by
    have hrest : ∀ q ∈ ps, q ∈ all := fun q hq => hmem q (mem_cons_of_mem _ hq)
    obtain ⟨r, ctx', eng', heval, hloop⟩ := evalLoop_cons he
    rcases evaluatePolicy_spec hok hcons (hmem p (mem_cons_self ..)) h s ctx with
      ⟨hnone, -⟩ | ⟨_, _, _, hsome, -, hview, hok'⟩
    · simp [hnone] at heval
    · cases hsome.symm.trans heval
      rcases hloop with ⟨-, rfl⟩ | ⟨-, any', hloop⟩
      · exact ⟨hview, hok'⟩
      · obtain ⟨hv, ho⟩ := sameView_evalLoop hcons hrest hok' hloop
        exact ⟨hv.trans hview, ho⟩

/-- The loop combines the votes of the policies in order. -/
theorem decideOn_eq_combine (hcons : IdsConsistent ps) (hok : RuleCacheOk V eng ps) (now : UInt64)
    (ctx : EvalContext) :
    (decideOn V h s eng now ctx ps).map Prod.fst = combine (ps.map (vote V h s ctx)) false := by
  rw [← evalLoop_eq_combine hcons (fun _ hp => hp) hok (.refl ctx)]
  unfold decideOn
  split
  · next hnil => subst hnil; rfl
  · simp only [Option.map_map]
    rfl

/-! ## §5 What a loop leaves of the other caches -/

/-- Equal but for the rule cache. -/
structure SameResults (eng eng' : Engine) : Prop where
  resCache : eng.resCache = eng'.resCache
  resultCache : eng.resultCache = eng'.resultCache

theorem SameResults.refl (eng : Engine) : SameResults eng eng := ⟨rfl, rfl⟩

theorem SameResults.trans {a b c : Engine} (h : SameResults a b) (h' : SameResults b c) :
    SameResults a c := ⟨h.resCache.trans h'.resCache, h.resultCache.trans h'.resultCache⟩

theorem sameResults_cacheRule (eng : Engine) (id : Nat) (c : Compiled) :
    SameResults (eng.cacheRule id c) eng := by
  unfold cacheRule
  split
  · exact .refl _
  · split
    · exact .refl _
    · exact ⟨rfl, rfl⟩

/-- The policy loop changes the engine only by caching compiled rules of the
policies it is given: what each such write keeps, the loop keeps. -/
theorem evalLoop_induct {P : Engine → Prop} :
    ∀ {ps : List Policy} {any : Bool} {eng : Engine} {ctx : EvalContext}
    {out : Bool × EvalContext × Engine},
    (∀ eng, ∀ p ∈ ps, ∀ c, compileRules V p.strategyType p.rules = some c → P eng →
      P (eng.cacheRule p.id c)) → P eng → evalLoop V h s ps any eng ctx = some out → P out.2.2
  | [], any, eng, ctx, out, _, hP, he => by
    cases he
    exact hP
  | p :: ps, any, eng, ctx, out, hwrite, hP, he => by
    have hrest := fun eng q hq => hwrite eng q (mem_cons_of_mem p hq)
    have hcompiled : P (compiledFor V eng p).2 := by
      unfold compiledFor
      split
      · exact hP
      · split
        · next c hc => exact hwrite eng p (mem_cons_self ..) c hc hP
        · exact hP
    have hpolicy : ∀ {r}, evaluatePolicy V h s eng p ctx = some r → P r.2.2 := by
      intro r hr
      unfold evaluatePolicy at hr
      split at hr
      · cases hr; exact hP
      · split at hr
        · cases hr; exact hP
        · obtain ⟨q, -, rfl⟩ := map_eq_some_iff.mp hr
          exact hcompiled
    obtain ⟨r, ctx', eng', hp, ⟨-, rfl⟩ | ⟨-, any', hloop⟩⟩ := evalLoop_cons he
    · exact hpolicy hp
    · exact evalLoop_induct hrest (hpolicy hp) hloop

/-- The loop writes the rule cache only. -/
theorem sameResults_evalLoop
    (he : evalLoop V h s ps any eng ctx = some out) : SameResults out.2.2 eng :=
  evalLoop_induct (P := fun e => SameResults e eng)
    (fun e p _ c _ hs => (sameResults_cacheRule e p.id c).trans hs) (.refl eng) he

/-! ## §6 An evaluation that misses the decision cache -/

/-- The policies an evaluation decides on: those of the level 1 slot, or the
ones it resolves. -/
def Engine.policiesFor (eng : Engine) (s : Store) (uid : Nat) (now : UInt64) : List Policy :=
  if eng.hitL1 uid now then eng.readL1 uid (eng.resCache (uid % 128)).count
  else policyResolveForUser s uid 64

@[simp] theorem writeL1_cache (eng : Engine) (uid : Nat) (now : UInt64) (ps : List Policy) :
    (eng.writeL1 uid now ps).cache = eng.cache := by
  unfold writeL1
  split <;> rfl

@[simp] theorem writeL1_resultCache (eng : Engine) (uid : Nat) (now : UInt64)
    (ps : List Policy) : (eng.writeL1 uid now ps).resultCache = eng.resultCache := by
  unfold writeL1
  split <;> rfl

/-- On a miss, the list goes into the slot of its user. -/
theorem writeL1_slot (eng : Engine) (uid : Nat) (now : UInt64) (ps : List Policy) (i : Nat) :
    (eng.writeL1 uid now ps).resCache i = eng.resCache i ∨
      i = uid % 128 ∧ eng.hitL1 uid now = false ∧ ((eng.writeL1 uid now ps).resCache i).userId =
        uid ∧
        ((eng.writeL1 uid now ps).resCache i).policies.take
          ((eng.writeL1 uid now ps).resCache i).count = ps := by
  unfold writeL1
  split
  · exact .inl rfl
  · next hmiss =>
    by_cases hi : i = uid % 128
    · exact .inr ⟨hi, by simpa using hmiss, by simp [hi]⟩
    · exact .inl (update_of_ne hi ..)

theorem RuleCacheOk.writeL1
    (hok : RuleCacheOk V eng ps) (uid : Nat) (now : UInt64) (qs : List Policy) :
    RuleCacheOk V (eng.writeL1 uid now qs) ps := by
  unfold RuleCacheOk
  rw [writeL1_cache]
  exact hok

/-- An evaluation that misses level 2 decides on the user's policies, which it caches first where
it had to resolve them. -/
theorem evaluateInternal_miss (hmiss : eng.lookupL2 ctx.userId (hashParams ctx) now = none) :
    ∃ eng', (eng' = eng ∨
        eng' = eng.writeL1 ctx.userId now (policyResolveForUser s ctx.userId 64)) ∧
      evaluateInternal V h s eng now ctx =
        decideOn V h s eng' now ctx (eng.policiesFor s ctx.userId now) := by
  unfold evaluateInternal policiesFor
  rw [hmiss]
  dsimp only
  split
  · exact ⟨eng, .inl rfl, rfl⟩
  · refine ⟨_, ?_, rfl⟩
    split
    · exact .inl rfl
    · exact .inr rfl

/-- An evaluation is a hit in the decision cache, or a loop and a write. -/
theorem evaluateInternal_cases (he : evaluateInternal V h s eng now ctx = some out) :
    (eng.lookupL2 ctx.userId (hashParams ctx) now = some out.1 ∧ out.2 = (ctx, eng)) ∨
      ∃ eng', (eng' = eng ∨
          eng' = eng.writeL1 ctx.userId now (policyResolveForUser s ctx.userId 64)) ∧
        decideOn V h s eng' now ctx (eng.policiesFor s ctx.userId now) = some out := by
  cases hlook : eng.lookupL2 ctx.userId (hashParams ctx) now with
  | some allowed =>
    rw [evaluateInternal, hlook] at he
    cases he
    exact .inl ⟨rfl, rfl⟩
  | none =>
    obtain ⟨eng', heng, heq⟩ := evaluateInternal_miss (V := V) (h := h) (s := s) hlook
    exact .inr ⟨eng', heng, heq.symm.trans he⟩

/-- On a miss, the decision is the combination of the votes. -/
theorem evaluateInternal_of_miss (hmiss : eng.lookupL2 ctx.userId (hashParams ctx) now = none)
    (hcons : IdsConsistent (eng.policiesFor s ctx.userId now))
    (hok : RuleCacheOk V eng (eng.policiesFor s ctx.userId now)) :
    (evaluateInternal V h s eng now ctx).map Prod.fst =
      combine ((eng.policiesFor s ctx.userId now).map (vote V h s ctx)) false := by
  obtain ⟨eng', heng, heq⟩ := evaluateInternal_miss (V := V) (h := h) (s := s) hmiss
  rw [heq]
  refine decideOn_eq_combine hcons ?_ now ctx
  rcases heng with rfl | rfl
  · exact hok
  · exact hok.writeL1 _ _ _

/-- What an evaluation that misses the decision cache leaves behind: the view
of the request, and a rule cache that is still right. -/
theorem sameView_evaluateInternal (hcons : IdsConsistent (eng.policiesFor s ctx.userId now))
    (hok : RuleCacheOk V eng (eng.policiesFor s ctx.userId now))
    (he : evaluateInternal V h s eng now ctx = some out) : SameView out.2.1 ctx := by
  rcases evaluateInternal_cases he with ⟨-, hout⟩ | ⟨eng', heng, hd⟩
  · rw [hout]
    exact .refl _
  · have hok' : RuleCacheOk V eng' (eng.policiesFor s ctx.userId now) := by
      rcases heng with rfl | rfl
      · exact hok
      · exact hok.writeL1 _ _ _
    unfold decideOn at hd
    split at hd
    · cases hd
      exact .refl _
    · obtain ⟨r, hloop, rfl⟩ := map_eq_some_iff.mp hd
      exact (sameView_evalLoop hcons (fun _ hp => hp) hok' hloop).1

/-! ## §7 Checks -/

/-- A check of a known user is an evaluation on the user's context, then the context is freed. -/
theorem permCheck_eq {sys : System} {req : CheckRequest} {user : User}
    (hu : sys.store.userGetById uid = some user)
    (hview : ∀ out, evaluateInternal V (req.heap h) sys.store sys.engine now (req.context user) =
      some out → SameView out.2.1 (req.context user)) :
    (permCheck V h sys now uid req).map (·.1.allowed) =
      ((evaluateInternal V (req.heap h) sys.store sys.engine now (req.context user)).map
        Prod.fst).bind fun b => (req.context user).destroy.map fun _ => b := by
  unfold permCheck
  simp only [hu]
  cases he : evaluateInternal V (req.heap h) sys.store sys.engine now (req.context user) with
  | none => simp only [Option.map_none, Option.bind_none]
  | some out =>
    simp only [Option.map_map, (hview out he).destroy_eq, Option.map_some, Option.bind_some]
    rfl

/-! ## §8 Invalidation -/

/-- The users whose cached results an invalidation drops. -/
def Invalidation.covers : Invalidation → Nat → Prop
  | .none, _ => False
  | .user u, uid => u = uid
  | .policy _, _ => True
  | .all, _ => True

/-- The policies whose compiled rules it drops. -/
def Invalidation.coversPolicy : Invalidation → Nat → Prop
  | .policy pid, id => pid = id
  | .all, _ => True
  | _, _ => False

/-- A list that survives an invalidation is untouched and not covered by it. -/
theorem apply_resCache (hv : ((inv.apply eng).resCache i).valid = true) :
    (inv.apply eng).resCache i = eng.resCache i ∧ ¬ inv.covers (eng.resCache i).userId := by
  cases inv with
  | none => exact ⟨rfl, id⟩
  | user u =>
    simp only [Invalidation.apply, invalidateUser, Bool.and_eq_true, bne_iff_ne] at hv ⊢
    have hkeep : ((eng.resCache i).valid && (eng.resCache i).userId != u) =
        (eng.resCache i).valid := by
      simp [hv.1, hv.2]
    exact ⟨by rw [hkeep], fun he => hv.2 he.symm⟩
  | policy | all => simp [Invalidation.apply, invalidatePolicy, invalidateAll, clearResults] at hv

/-- What stays valid after an invalidation was valid before and is not covered by it. -/
theorem apply_resultCache (hv : ((inv.apply eng).resultCache i).valid = true) :
    (inv.apply eng).resultCache i = eng.resultCache i ∧
      ¬ inv.covers (eng.resultCache i).userId := by
  cases inv with
  | none => exact ⟨rfl, id⟩
  | user u =>
    simp only [Invalidation.apply, invalidateUser, Bool.and_eq_true, bne_iff_ne] at hv ⊢
    have hkeep : ((eng.resultCache i).valid && (eng.resultCache i).userId != u) =
        (eng.resultCache i).valid := by
      simp [hv.1, hv.2]
    exact ⟨by rw [hkeep], fun he => hv.2 he.symm⟩
  | policy | all => simp [Invalidation.apply, invalidatePolicy, invalidateAll, clearResults] at hv

/-- With rules in their home slots, a rule that survives is untouched and not covered. -/
theorem apply_cache (hhome : ∀ i, (eng.cache i).policyId ≠ 0 → i = (eng.cache i).policyId % 256)
    (hslot : ∀ pid, inv = .policy pid → pid ≠ 0 ∧
    ((eng.cache (pid % 256)).policyId = 0 ∨ (eng.cache (pid % 256)).policyId = pid))
    (hi : ((inv.apply eng).cache i).policyId ≠ 0) :
    (inv.apply eng).cache i = eng.cache i ∧ ¬ inv.coversPolicy (eng.cache i).policyId := by
  cases inv with
  | none | user => exact ⟨rfl, id⟩
  | all => exact absurd rfl hi
  | policy pid =>
    obtain ⟨hne, hfree⟩ := hslot pid rfl
    have hpid : (eng.cache i).policyId = pid → i = pid % 256 := by
      intro hid
      rw [← hid]
      exact hhome i (by rw [hid]; exact hne)
    simp only [Invalidation.apply, invalidatePolicy, clearResults, dropRule,
      findSlot_home hfree] at hi ⊢
    split at hi
    · next hown =>
      rw [if_pos hown]
      by_cases hih : i = pid % 256
      · simp [hih] at hi
      · simp only [update_of_ne hih] at hi ⊢
        exact ⟨trivial, fun he => hih (hpid he.symm)⟩
    · next hown =>
      rw [if_neg hown]
      refine ⟨rfl, fun he => hown ?_⟩
      rw [← hpid he.symm]
      exact he.symm

end SsoSystem
