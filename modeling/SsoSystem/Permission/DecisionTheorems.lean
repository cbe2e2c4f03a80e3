/-
SsoSystem.Permission.DecisionTheorems — the deny-override law of an
evaluation, and exactly where it breaks down.

The engine reads every request through all seven members of its parameter
union, so a strategy may crash on the bytes of another kind of request
(`NeverReturns`).
-/
import SsoSystem.Permission.EngineTheorems

namespace SsoSystem

open CMem DenyOverride List Option

/-! ## §1 Policies that do not return -/

/-- The enabled policies whose strategy does not come back from a request. -/
inductive NeverReturns (V : Vendor) (h : Heap) (s : Store) (ctx : EvalContext) (p : Policy) :
    Prop where
  /-- A matching data policy follows a record pointer that is not a string. -/
  | record (rule : DataRule) (hen : p.status ≠ .disabled) (ht : p.strategyType = .data)
      (hc : dataCompile V p.rules = some rule) (hm : ctx.resourceType = rule.resourceType)
      (hne : ctx.record ≠ 0) (hr : h.readStr ctx.record = none)
  /-- A matching data policy frees a field filter that is none, or copies a NULL field. -/
  | filter (rule : DataRule) (hen : p.status ≠ .disabled) (ht : p.strategyType = .data)
      (hc : dataCompile V p.rules = some rule) (hm : ctx.resourceType = rule.resourceType)
      (hr : dataRecordCheck V h rule ctx.record = some .ok) (hf : rule.allowedFields ≠ [])
      (hbad : ctx.fieldFilterFreeable = false ∨ none ∈ rule.allowedFields)
  /-- A role policy asks for the effective roles of a user below a parent cycle. -/
  | roleWalk (items : List RbacItem) (hen : p.status ≠ .disabled) (ht : p.strategyType = .rbac)
      (hc : rbacCompile V p.rules = some items) (hne : ctx.roleName ≠ [])
      (hm : ∃ i ∈ items, i.roleName = ctx.roleName)
      (hw : userHasRole s ctx.userId ctx.roleName = none)

variable {V : Vendor} {h : Heap} {rule : DataRule} {ctx : EvalContext} {s : Store} {p : Policy}
  {ps : List Policy}

/-- A record is read through its pointer, which has to lead to a string. -/
theorem dataRecordCheck_eq_none_iff {a : Nat} :
    dataRecordCheck V h rule a = none ↔ a ≠ 0 ∧ h.readStr a = none := by
  unfold dataRecordCheck
  split
  · next h0 => simp [h0]
  · next h0 =>
    cases hr : h.readStr a with
    | none => simp [h0]
    | some text =>
      simp only [reduceCtorEq, and_false, iff_false]
      cases V.yyjsonRead text with
      | none => simp
      | some root => dsimp only; split <;> simp

/-- A list of results fails if one of them does. -/
theorem mapM_id_eq_none_iff {α : Type} : ∀ {xs : List (Option α)},
    xs.mapM id = none ↔ none ∈ xs
  | [] => by simp
  | x :: xs => by
    cases x with
    | none => simp
    | some a =>
      have ih : xs.mapM id = none ↔ none ∈ xs := mapM_id_eq_none_iff
      cases hx : xs.mapM id <;> simp_all

/-- The field filter crashes on a pointer it cannot free, or on an allowed field that is no string.
-/
theorem dataFilter_eq_none_iff :
    dataFilter h rule ctx = none ↔ rule.allowedFields ≠ [] ∧
      (ctx.fieldFilterFreeable = false ∨ none ∈ rule.allowedFields) := by
  unfold dataFilter
  split
  · next hnil => simp [hnil]
  · next hne =>
    cases hfree : ctx.fieldFilterFreeable with
    | false => simp [hne]
    | true =>
      have hm : rule.allowedFields.mapM id = none ↔ none ∈ rule.allowedFields :=
        mapM_id_eq_none_iff
      cases hx : rule.allowedFields.mapM id <;> simp_all

/-- The data strategy gets that far only for its own resource type. -/
theorem dataEvaluate_eq_none_iff :
    dataEvaluate V h rule ctx = none ↔ ctx.resourceType = rule.resourceType ∧
      (dataRecordCheck V h rule ctx.record = none ∨
        dataRecordCheck V h rule ctx.record = some .ok ∧ dataFilter h rule ctx = none) := by
  unfold dataEvaluate
  split
  · next hm => simp [hm]
  · next hm =>
    have hm' : ctx.resourceType = rule.resourceType := not_not.mp hm
    cases hd : dataRecordCheck V h rule ctx.record with
    | none => simp [hm']
    | some e => cases e <;> simp [hm']

/-- The role strategy never returns if the climb to the ancestors does not. -/
theorem rbacEvaluate_eq_none_iff {items : List RbacItem} :
    rbacEvaluate s items ctx = none ↔ ctx.roleName ≠ [] ∧
      (∃ i ∈ items, i.roleName = ctx.roleName) ∧
      userHasRole s ctx.userId ctx.roleName = none := by
  unfold rbacEvaluate
  split
  · next hnil => simp [hnil]
  · next hne =>
    cases hf : items.find? fun i => i.roleName == ctx.roleName with
    | none =>
      have hnone := find?_eq_none.mp hf
      simp only [reduceCtorEq, false_iff]
      rintro ⟨-, ⟨i, hi, hname⟩, -⟩
      exact hnone i hi (by simp [hname])
    | some i =>
      have hi : i ∈ items := mem_of_find?_eq_some hf
      have hname : i.roleName = ctx.roleName := by simpa using find?_some hf
      simp only [map_eq_none_iff]
      exact ⟨fun hw => ⟨hne, ⟨i, hi, hname⟩, hw⟩, fun hw => hw.2.2⟩

theorem vote_eq_stuck_iff_evaluate : vote V h s ctx p = .stuck ↔ p.status ≠ .disabled ∧
      ∃ c, compileRules V p.strategyType p.rules = some c ∧
        evaluateCompiled V h s ctx p.strategyType c = none := by
  have hstuck : ∀ r : Option StrategyResult, voteOf r = .stuck ↔ r = none := by
    intro r
    rcases r with _ | ⟨e, b⟩
    · simp [voteOf]
    · cases e <;> cases b <;> simp [voteOf]
  unfold vote
  split
  · next hdis => simp [hdis]
  · next hen =>
    cases hc : compileRules V p.strategyType p.rules with
    | none => split <;> simp [strategyEvaluate, voteOf]
    | some c =>
      have hreg : p.strategyType.registered = true := by
        cases ht : p.strategyType <;> simp_all [compileRules, StrategyType.registered]
      simp [hreg, strategyEvaluate, hstuck, hen]

/-- A policy that does not return, told from its rules and the request. -/
theorem vote_eq_stuck_iff : vote V h s ctx p = .stuck ↔ NeverReturns V h s ctx p := by
  rw [vote_eq_stuck_iff_evaluate]
  constructor
  · rintro ⟨hen, c, hc, he⟩
    cases ht : p.strategyType with
    | data =>
      simp only [ht, compileRules, map_eq_some_iff] at hc
      obtain ⟨rule, hrule, rfl⟩ := hc
      simp only [ht, evaluateCompiled, dataEvaluate_eq_none_iff, dataRecordCheck_eq_none_iff,
        dataFilter_eq_none_iff] at he
      rcases he with ⟨hm, ⟨hne, hr⟩ | ⟨hr, hf, hbad⟩⟩
      · exact .record rule hen ht hrule hm hne hr
      · exact .filter rule hen ht hrule hm hr hf hbad
    | rbac =>
      simp only [ht, compileRules, map_eq_some_iff] at hc
      obtain ⟨items, hitems, rfl⟩ := hc
      simp only [ht, evaluateCompiled, map_eq_none_iff, rbacEvaluate_eq_none_iff] at he
      exact .roleWalk items hen ht hitems he.1 he.2.1 he.2.2
    | _ =>
      simp only [ht, compileRules, map_eq_some_iff, reduceCtorEq] at hc
      all_goals
        obtain ⟨items, -, rfl⟩ := hc
        simp [ht, evaluateCompiled] at he
  · rintro (⟨rule, hen, ht, hc, hm, hne, hr⟩ | ⟨rule, hen, ht, hc, hm, hr, hf, hbad⟩ |
      ⟨items, hen, ht, hc, hne, hm, hw⟩)
    · refine ⟨hen, .data rule, by simp [ht, compileRules, hc], ?_⟩
      simp only [ht, evaluateCompiled, dataEvaluate_eq_none_iff, dataRecordCheck_eq_none_iff]
      exact ⟨hm, .inl ⟨hne, hr⟩⟩
    · refine ⟨hen, .data rule, by simp [ht, compileRules, hc], ?_⟩
      simp only [ht, evaluateCompiled, dataEvaluate_eq_none_iff, dataFilter_eq_none_iff]
      exact ⟨hm, .inr ⟨hr, hf, hbad⟩⟩
    · refine ⟨hen, .rbac items, by simp [ht, compileRules, hc], ?_⟩
      simp only [ht, evaluateCompiled, map_eq_none_iff, rbacEvaluate_eq_none_iff]
      exact ⟨hne, hm, hw⟩

/-! ## §2 The deny-override law -/

/-- Policies as a store hands them out: found under their own, nonzero id. -/
def PoliciesOf (s : Store) (ps : List Policy) : Prop :=
  ∀ p ∈ ps, s.policyGetById p.id = some p ∧ p.id ≠ 0

/-- Stored policies with one id are one policy. -/
theorem PoliciesOf.idsConsistent (hps : PoliciesOf s ps) : IdsConsistent ps := by
  intro p hp q hq hid
  have hp' := (hps p hp).1
  rw [hid, (hps q hq).1] at hp'
  exact (some.inj hp').symm

/-- The order of the policies does not matter for this. -/
theorem PoliciesOf.of_perm {qs : List Policy} (hps : PoliciesOf s ps) (hperm : ps.Perm qs) :
    PoliciesOf s qs :=
  fun p hp => hps p (hperm.mem_iff.mpr hp)

/-- An engine whose only content is a user's level 1 slot. -/
def engineWithPolicies (uid : Nat) (ps : List Policy) : Engine :=
  permEngineCreate.writeL1 uid 0 ps

/-- A cached list is taken as it is. -/
theorem policiesFor_engineWithPolicies (s : Store) (uid : Nat) (ps : List Policy) :
    (engineWithPolicies uid ps).policiesFor s uid 0 = ps := by
  simp [engineWithPolicies, Engine.policiesFor, Engine.writeL1, Engine.hitL1, Engine.readL1,
    permEngineCreate]

theorem RuleCacheOk.permEngineCreate (V : Vendor) (hps : PoliciesOf s ps) :
    RuleCacheOk V permEngineCreate ps := by
  intro i p hp hid
  exact absurd hid.symm (hps p hp).2

/-- The law at a list of policies: whatever the caches hold, as long as the
decision cache misses and the rule cache is right, an evaluation on these
policies in any order, with silent ones added or taken out, returns, and
allows exactly when one allows and none denies. -/
def DenyOverrideLaw (V : Vendor) (h : Heap) (s : Store) (ctx : EvalContext)
    (ps : List Policy) : Prop :=
  ∀ (eng : Engine) (now : UInt64),
    eng.lookupL2 ctx.userId (hashParams ctx) now = none →
    PoliciesOf s (eng.policiesFor s ctx.userId now) →
    RuleCacheOk V eng (eng.policiesFor s ctx.userId now) →
    Rearranged (vote V h s ctx) ps (eng.policiesFor s ctx.userId now) →
    ∃ out, evaluateInternal V h s eng now ctx = some out ∧
      (out.1 = true ↔ (∃ p ∈ ps, vote V h s ctx p = .allow) ∧ ∀ p ∈ ps, vote V h s ctx p ≠ .deny)

/-- One policy that does not return breaks the law: some order puts it first. -/
theorem not_denyOverrideLaw_of_neverReturns (hps : PoliciesOf s ps) (hp : p ∈ ps)
    (hnever : NeverReturns V h s ctx p) : ¬ DenyOverrideLaw V h s ctx ps := by
  intro hlaw
  -- the policy that does not return comes first in the user's level 1 slot
  obtain ⟨l, r, rfl⟩ := append_of_mem hp
  have hperm : (l ++ p :: r).Perm (p :: (l ++ r)) := perm_middle
  have hlist := policiesFor_engineWithPolicies s ctx.userId (p :: (l ++ r))
  have hps' : PoliciesOf s (p :: (l ++ r)) := hps.of_perm hperm
  have hok : RuleCacheOk V (engineWithPolicies ctx.userId (p :: (l ++ r))) (p :: (l ++ r)) :=
    (RuleCacheOk.permEngineCreate V hps').writeL1 _ _ _
  have hmiss : (engineWithPolicies ctx.userId (p :: (l ++ r))).lookupL2 ctx.userId
      (hashParams ctx) 0 = none := by
    simp [engineWithPolicies, Engine.writeL1, Engine.lookupL2, permEngineCreate, Engine.hitL1]
  obtain ⟨out, hout, -⟩ := hlaw _ 0 hmiss (by rw [hlist]; exact hps') (by rw [hlist]; exact hok)
    (by rw [hlist]; exact .of_perm hperm)
  have heval := evaluateInternal_of_miss hmiss (by rw [hlist]; exact hps'.idsConsistent)
    (by rw [hlist]; exact hok) (h := h)
  rw [hout, hlist, map_cons, vote_eq_stuck_iff.mpr hnever] at heval
  simp [combine] at heval

/-- If every policy returns, one deny decides, in every order. -/
theorem denyOverrideLaw_of_returns (hret : ∀ p ∈ ps, ¬ NeverReturns V h s ctx p) :
    DenyOverrideLaw V h s ctx ps := by
  intro eng now hmiss hps hok hre
  have hns : Vote.stuck ∉ ps.map (vote V h s ctx) := by
    intro hm
    obtain ⟨p, hp, hv⟩ := List.mem_map.mp hm
    exact hret p hp (vote_eq_stuck_iff.mp hv)
  have heval := evaluateInternal_of_miss hmiss hps.idsConsistent hok (h := h)
  rw [(rearranged_iff_no_stuck ps).mpr hns _ hre] at heval
  obtain ⟨out, hout, hfst⟩ := Option.map_eq_some_iff.mp heval
  refine ⟨out, hout, ?_⟩
  rw [hfst]
  simp [List.mem_map]

/-- The deny-override law holds of a user's policies exactly when none of them
fails to return on the request. -/
theorem denyOverrideLaw_iff {V : Vendor} {h : Heap} {s : Store} {ctx : EvalContext}
    {ps : List Policy} (hps : PoliciesOf s ps) :
    DenyOverrideLaw V h s ctx ps ↔ ∀ p ∈ ps, ¬ NeverReturns V h s ctx p := by
  constructor
  · intro hlaw p hp hnever
    exact not_denyOverrideLaw_of_neverReturns hps hp hnever hlaw
  · exact denyOverrideLaw_of_returns

/-! ### A location request read as a data request -/

def addressRules : Bytes := lit "\x7b\"locations\":[\"10.0.0.1\"]\x7d"

def addressTypeRules : Bytes := lit "\x7b\"resource_type\":\"10.0.0.1\"\x7d"

def addressVendor : Vendor := .ofTable
  [(addressRules, .obj [(lit "locations", .arr [.str (lit "10.0.0.1")])]),
    (addressTypeRules, .obj [(lit "resource_type", .str (lit "10.0.0.1"))])]

/-- Allows one address. -/
def addressPolicy : Policy where
  id := 1
  name := lit "office"
  strategyType := .location
  effect := .allow
  priority := 0
  rules := addressRules
  status := .enabled

/-- A data policy whose resource type is that address. -/
def addressTypePolicy : Policy where
  id := 2
  name := lit "records"
  strategyType := .data
  effect := .allow
  priority := 0
  rules := addressTypeRules
  status := .enabled

def addressStore : Store :=
  { memOpen with policies := [addressPolicy, addressTypePolicy], nextPid := 3 }

/-- No address is mapped beyond what the process itself allocates. -/
def emptyHeap : Heap where
  load := fun _ => none
  filterAddr := .firstPage

def sampleUser : User where
  id := 1
  username := lit "alice"
  phone := []
  status := .active

/-- `perm_check_location(ctx, 1, "10.0.0.1", "US", ...)`. -/
def addressContext : EvalContext :=
  (CheckRequest.location (lit "10.0.0.1") (some (lit "US"))).context sampleUser

theorem policiesOf_addressStore : PoliciesOf addressStore [addressPolicy, addressTypePolicy] := by
  unfold PoliciesOf
  decide

/-- The country code is taken for a record pointer: with the data policy in the
list the address is not allowed, the evaluation crashes. -/
theorem addressContext_breaks_law : ¬ DenyOverrideLaw addressVendor emptyHeap addressStore
    addressContext [addressPolicy, addressTypePolicy] := by
  refine not_denyOverrideLaw_of_neverReturns policiesOf_addressStore
    (p := addressTypePolicy) (by simp) ?_
  exact .record { resourceType := lit "10.0.0.1", conditions := [], allowedFields := []
                  isAllow := true }
    (by decide) rfl (by decide) (by decide) (by decide) rfl

/-- Without the data policy the same request is decided by the law. -/
theorem addressPolicy_law : DenyOverrideLaw addressVendor emptyHeap addressStore
    addressContext [addressPolicy] := by
  refine (denyOverrideLaw_iff (by unfold PoliciesOf; decide)).mpr ?_
  intro p hp hnever
  obtain rfl : p = addressPolicy := by simpa using hp
  cases hnever <;> contradiction

end SsoSystem
