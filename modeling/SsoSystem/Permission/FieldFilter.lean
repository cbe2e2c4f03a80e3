/-
SsoSystem.Permission.FieldFilter — the field list `perm_check_data`
(src/permission.c) returns.

Every matching data policy with "allowed_fields" replaces the list of the
context (strategies/data_perm.c), so an allowed question comes back with the
list of the last such policy (`shownFields_of_allowed`), not with what all of
them have in common. A decision from the level 2 cache leaves the context as
it came in and has no list at all, which to the caller means no restriction.

So the list is right, and comes back a second time, if the last list is part of
the others and the second question is answered like the first, from the cache or
by the policies; or if no policy that matches restricts fields
(`fieldFilter_iff`). Whether the second question finds a cached decision is read
off the engine before the first (`cachedDecision_after`).
-/
import SsoSystem.Permission.CoherenceTheorems
import SsoSystem.Permission.ContextMemory

namespace SsoSystem

open CMem DenyOverride List Option CheckRequest

/-! ## §1 The lists of the policies -/

/-- The fields a compiled rule restricts a match to. -/
def DataRule.fields (rule : DataRule) : Option (List Bytes) :=
  if rule.allowedFields = [] then none else rule.allowedFields.mapM id

/-- The "allowed_fields" of a data policy that has some. -/
def policyFields (V : Vendor) (p : Policy) : Option (List Bytes) :=
  match compileRules V p.strategyType p.rules with
  | some (.data rule) => rule.fields
  | _ => none

section Shown

variable (V : Vendor) (h : Heap) (s : Store) (ctx : EvalContext)

/-- The list that stands in the context after the policy loop: each policy
with an opinion puts its own in place, and the first deny is the last to do so. -/
def shownFields : List Policy → Option (List Bytes) → Option (List Bytes)
  | [], shown => shown
  | p :: ps, shown =>
    match vote V h s ctx p with
    | .allow => shownFields ps ((policyFields V p).or shown)
    | .deny => (policyFields V p).or shown
    | .skip | .stuck => shownFields ps shown

/-- The lists of the matching allow policies that restrict fields, in order. -/
def allowLists (ps : List Policy) : List (List Bytes) :=
  (ps.filter fun p => vote V h s ctx p = .allow).filterMap (policyFields V)

end Shown

variable {V : Vendor} {h : Heap} {s : Store} {ctx ctx' : EvalContext} {ps : List Policy}
  {r : StrategyResult}

theorem mem_allowLists {fields : List Bytes} : fields ∈ allowLists V h s ctx ps ↔
      ∃ p ∈ ps, vote V h s ctx p = .allow ∧ policyFields V p = some fields := by
  simp [allowLists, and_assoc]

theorem getLast?_toList_append {α : Type} (o : Option α) (xs : List α) :
    (o.toList ++ xs).getLast? = xs.getLast?.or o := by
  cases o with
  | none => simp
  | some a =>
    rw [toList_some, singleton_append, getLast?_cons]
    cases xs.getLast? <;> rfl

/-- Without a deny the last allow policy that restricts fields has its way. -/
theorem shownFields_of_no_deny :
    ∀ {ps : List Policy} (shown : Option (List Bytes)), .deny ∉ ps.map (vote V h s ctx) →
    shownFields V h s ctx ps shown = (allowLists V h s ctx ps).getLast?.or shown
  | [], shown, _ => rfl
  | p :: ps, shown, hdeny => by
    rw [List.map_cons, List.mem_cons, not_or] at hdeny
    have ih : ∀ shown, shownFields V h s ctx ps shown =
        (allowLists V h s ctx ps).getLast?.or shown :=
      fun shown => shownFields_of_no_deny shown hdeny.2
    unfold shownFields
    cases hv : vote V h s ctx p with
    | allow =>
      have hlists : allowLists V h s ctx (p :: ps) =
          (policyFields V p).toList ++ allowLists V h s ctx ps := by
        cases hf : policyFields V p <;> simp [allowLists, hv, hf]
      rw [hlists, getLast?_toList_append, Option.or_assoc]
      exact ih _
    | deny => exact absurd hv.symm hdeny.1
    | skip | stuck =>
      have hlists : allowLists V h s ctx (p :: ps) = allowLists V h s ctx ps := by
        simp [allowLists, hv]
      rw [hlists]
      exact ih shown

theorem shownFields_of_allowed (hallow : combine (ps.map (vote V h s ctx)) false = some true) :
    shownFields V h s ctx ps none = (allowLists V h s ctx ps).getLast? := by
  rw [shownFields_of_no_deny none (combine_eq_some_true_iff.mp hallow).2.1, or_none]

/-- No policy that has its say restricts fields: none that allows, up to the first that denies,
nor that one. -/
def Unrestricted (V : Vendor) (h : Heap) (s : Store) (ctx : EvalContext) : List Policy → Prop
  | [] => True
  | p :: ps =>
    match vote V h s ctx p with
    | .allow => policyFields V p = none ∧ Unrestricted V h s ctx ps
    | .deny => policyFields V p = none
    | .skip | .stuck => Unrestricted V h s ctx ps

theorem shownFields_eq_none_iff : ∀ {ps : List Policy} {shown : Option (List Bytes)},
    shownFields V h s ctx ps shown = none ↔ shown = none ∧ Unrestricted V h s ctx ps
  | [], shown => by simp [shownFields, Unrestricted]
  | p :: ps, shown => by
    unfold shownFields Unrestricted
    cases vote V h s ctx p with
    | allow =>
      dsimp only
      rw [shownFields_eq_none_iff, Option.or_eq_none_iff]
      tauto
    | deny =>
      dsimp only
      rw [Option.or_eq_none_iff, and_comm]
    | skip | stuck => exact shownFields_eq_none_iff

theorem shownFields_of_votes : ∀ {ps : List Policy} {h' : Heap} {shown : Option (List Bytes)},
    (∀ p ∈ ps, vote V h' s ctx' p = vote V h s ctx p) →
    shownFields V h' s ctx' ps shown = shownFields V h s ctx ps shown
  | [], _, _, _ => rfl
  | p :: ps, h', shown, hvotes => by
    obtain ⟨hp, hps⟩ := forall_mem_cons.mp hvotes
    have ih : ∀ shown, shownFields V h' s ctx' ps shown = shownFields V h s ctx ps shown :=
      fun shown => shownFields_of_votes hps
    simp only [shownFields, hp, ih]

theorem shownFields_congr (hv : SameView ctx ctx') :
    shownFields V h s ctx = shownFields V h s ctx' := by
  funext ps
  induction ps with
  | nil => rfl
  | cons p ps ih =>
    funext shown
    simp only [shownFields, vote_congr hv, ih]

/-! ## §2 What the loop leaves in the context -/

theorem fieldFilter_of_dataEvaluate {rule : DataRule}
    (he : dataEvaluate V h rule ctx = some (r, ctx')) :
    ctx'.fieldFilter = if r.1 = .ok then rule.fields.or ctx.fieldFilter else ctx.fieldFilter := by
  unfold DataRule.fields
  rcases dataEvaluate_cases
    he with ⟨hne, rfl⟩ | ⟨hok, -, -, ⟨hnil, rfl⟩ | ⟨hne, -, fields, hfields, rfl⟩⟩
  · rw [if_neg hne]
  · rw [if_pos hok, if_pos hnil, none_or]
  · rw [if_pos hok, if_neg hne, hfields]
    rfl

variable {p : Policy}

theorem fieldFilter_of_evaluateCompiled {c : Compiled}
    (hc : compileRules V p.strategyType p.rules = some c)
    (he : evaluateCompiled V h s ctx p.strategyType c = some (r, ctx')) :
    ctx'.fieldFilter =
      if r.1 = .ok then (policyFields V p).or ctx.fieldFilter else ctx.fieldFilter := by
  rcases evaluateCompiled_cases he with ⟨hnot, rfl⟩ | ⟨rule, rfl, hdata⟩
  · have hnone : policyFields V p = none := by
      unfold policyFields
      rw [hc]
      cases c with
      | data rule => exact absurd rfl (hnot rule)
      | _ => rfl
    rw [hnone, none_or, ite_self]
  · rw [fieldFilter_of_dataEvaluate hdata, policyFields, hc]

theorem fieldFilter_of_evaluatePolicy {eng eng' : Engine} (hok : RuleCacheOk V eng ps)
    (hcons : IdsConsistent ps) (hp : p ∈ ps)
    (he : evaluatePolicy V h s eng p ctx = some (r, ctx', eng')) :
    ctx'.fieldFilter =
      if r.1 = .ok then (policyFields V p).or ctx.fieldFilter else ctx.fieldFilter := by
  rcases evaluatePolicy_cases he with ⟨hne, rfl⟩ | ⟨c, hcomp, hc⟩
  · rw [if_neg hne]
  · rw [(compiledFor_spec hok hcons hp).1] at hcomp
    exact fieldFilter_of_evaluateCompiled hcomp hc

theorem fieldFilter_of_evalLoop {all : List Policy} (hcons : IdsConsistent all) :
    ∀ {ps : List Policy} {any : Bool} {eng : Engine}
    {ctx : EvalContext} {out : Bool × EvalContext × Engine}, (∀ p ∈ ps, p ∈ all) →
    RuleCacheOk V eng all → evalLoop V h s ps any eng ctx = some out →
    out.2.1.fieldFilter = shownFields V h s ctx ps ctx.fieldFilter
  | [], any, eng, ctx, out, _, _, he => by
    cases he
    rfl
  | p :: ps, any, eng, ctx, out, hmem, hok, he => by
    have hp : p ∈ all := hmem p (mem_cons_self ..)
    have hrest : ∀ q ∈ ps, q ∈ all := fun q hq => hmem q (mem_cons_of_mem _ hq)
    obtain ⟨r, ctx', eng', heval, hloop⟩ := evalLoop_cons he
    rcases evaluatePolicy_spec hok hcons hp h s ctx with
      ⟨hnone, -⟩ | ⟨_, _, _, hsome, hvote, hview, hok'⟩
    · simp [hnone] at heval
    · cases hsome.symm.trans heval
      have hfield := fieldFilter_of_evaluatePolicy hok hcons hp heval
      rw [shownFields, ← hvote]
      rcases hloop with ⟨rfl, rfl⟩ | ⟨hgoes, any', hloop⟩
      · exact hfield
      · rw [fieldFilter_of_evalLoop hcons hrest hok' hloop, shownFields_congr hview, hfield]
        obtain ⟨err, res⟩ := r
        cases err <;> cases res <;> first | rfl | exact absurd rfl hgoes

/-! ## §3 One question -/

/-- The rule cache and the policy lists an evaluation for this user reads are
those of the store; nothing is asked of the cached decisions. -/
structure CachesRight (V : Vendor) (s : Store) (eng : Engine) (uid : Nat) : Prop where
  rules : RuleCacheOk V eng (policyResolveForUser s uid 64)
  lists : ListsInv s eng

section Question

variable {V : Vendor} {h : Heap} {s : Store} {eng : Engine} {now : UInt64} {ctx : EvalContext}
  {out : Bool × EvalContext × Engine} {uid : Nat}

theorem fieldFilter_of_decideOn (hcons : IdsConsistent ps) (hok : RuleCacheOk V eng ps)
    (hd : decideOn V h s eng now ctx ps = some out) :
    out.2.1.fieldFilter = shownFields V h s ctx ps ctx.fieldFilter := by
  unfold decideOn at hd
  split at hd
  · next hnil =>
    cases hd
    rw [hnil]
    rfl
  · obtain ⟨r, hloop, rfl⟩ := map_eq_some_iff.mp hd
    have hlist := fieldFilter_of_evalLoop hcons (fun _ hp => hp) hok hloop
    exact hlist

theorem CachesRight.decideOn (hright : CachesRight V s eng uid)
    (hd : decideOn V h s eng now ctx (policyResolveForUser s uid 64) = some out) :
    CachesRight V s out.2.2 uid := by
  unfold SsoSystem.decideOn at hd
  split at hd
  · cases hd
    exact hright
  · obtain ⟨r, hloop, rfl⟩ := map_eq_some_iff.mp hd
    have hsame := sameResults_evalLoop hloop
    refine ⟨(sameView_evalLoop (idsConsistent_resolve s uid) (fun _ hp => hp) hright.rules
      hloop).2, ?_⟩
    unfold ListsInv Engine.writeL2
    rw [hsame.resCache]
    exact hright.lists

theorem CachesRight.writeL1 (hright : CachesRight V s eng uid) (now : UInt64) :
    CachesRight V s (eng.writeL1 uid now (policyResolveForUser s uid 64)) uid :=
  ⟨hright.rules.writeL1 uid now _, hright.lists.writeL1 uid now⟩

/-- An evaluation that misses level 2 decides on the policies of the store, with
caches that are right. -/
theorem CachesRight.decides (hright : CachesRight V s eng ctx.userId)
    (hmiss : eng.lookupL2 ctx.userId (hashParams ctx) now = none) :
    ∃ eng', CachesRight V s eng' ctx.userId ∧ evaluateInternal V h s eng now ctx =
      SsoSystem.decideOn V h s eng' now ctx (policyResolveForUser s ctx.userId 64) := by
  obtain ⟨eng', heng, heq⟩ := evaluateInternal_miss (V := V) (h := h) (s := s) hmiss
  refine ⟨eng', ?_, by rw [heq, hright.lists.policiesFor]⟩
  rcases heng with rfl | rfl
  · exact hright
  · exact hright.writeL1 now

end Question

/-! ## §4 The answer of `perm_check_data` -/

section Answer

variable (V : Vendor) (h : Heap) (s : Store) (eng : Engine) (now : UInt64) (ctx : EvalContext)

/-- The policies of the asking user. -/
def userPolicies : List Policy := policyResolveForUser s ctx.userId 64

/-- What the user's policies decide, deny over allow. -/
def policyDecision : Option Bool := combine ((userPolicies s ctx).map (vote V h s ctx)) false

/-- The list the user's policies leave. -/
def policyList : Option (List Bytes) := shownFields V h s ctx (userPolicies s ctx) none

/-- The decision cached for a question. -/
def cachedDecision : Option Bool := eng.lookupL2 ctx.userId (hashParams ctx) now

/-- Decision and list of a question: a cached decision comes without a list. -/
def dataAnswer : Option (Bool × Option (List Bytes)) :=
  match cachedDecision eng now ctx with
  | some b => some (b, none)
  | none => (policyDecision V h s ctx).map fun b => (b, policyList V h s ctx)

end Answer

section Asked

variable {V : Vendor} {h : Heap} {s : Store} {eng : Engine} {now : UInt64}

theorem CachesRight.evaluate (hright : CachesRight V s eng ctx.userId)
    (hfilter : ctx.fieldFilter = none) (h : Heap) (now : UInt64) :
    (evaluateInternal V h s eng now ctx).map (fun out => (out.1, out.2.1.fieldFilter)) =
      dataAnswer V h s eng now ctx := by
  unfold dataAnswer
  cases hl : cachedDecision eng now ctx with
  | some b =>
    have hhit : eng.lookupL2 ctx.userId (hashParams ctx) now = some b := hl
    simp only [evaluateInternal, hhit, map_some, hfilter]
  | none =>
    obtain ⟨eng', hright', heq⟩ := hright.decides (h := h) hl
    have hcons := idsConsistent_resolve s ctx.userId
    have hdecision := decideOn_eq_combine (h := h) (s := s) hcons hright'.rules now ctx
    rw [heq]
    cases hd : SsoSystem.decideOn V h s eng' now ctx (policyResolveForUser s ctx.userId 64) with
    | none =>
      rw [hd, map_none] at hdecision
      simp only [policyDecision, userPolicies, ← hdecision, map_none]
    | some out =>
      rw [hd, map_some] at hdecision
      have hlist := fieldFilter_of_decideOn hcons hright'.rules hd
      rw [hfilter] at hlist
      simp only [policyDecision, policyList, userPolicies, ← hdecision, map_some, hlist]

theorem CachesRight.evaluateInternal
    (hright : CachesRight V s eng ctx.userId) {out : Bool × EvalContext × Engine}
    (he : evaluateInternal V h s eng now ctx = some out) : CachesRight V s out.2.2 ctx.userId := by
  cases hl : eng.lookupL2 ctx.userId (hashParams ctx) now with
  | some b =>
    simp only [SsoSystem.evaluateInternal, hl, some.injEq] at he
    rw [← he]
    exact hright
  | none =>
    obtain ⟨eng', hright', heq⟩ := hright.decides (h := h) hl
    rw [heq] at he
    exact hright'.decideOn he

theorem destroy_of_data (user : User) (resourceType : Bytes) (record : Option (Bytes × UserAddr)) :
    ((CheckRequest.data resourceType record).context user).destroy = some () := by
  have hclear := (short_iff_clear (.data resourceType record) user).mp trivial
  exact if_pos hclear

/-- The result `perm_check_data` hands back for an answer. -/
def dataResult (answer : Bool × Option (List Bytes)) : CheckResult where
  err := .ok
  allowed := answer.1
  fieldFilter := answer.2

theorem CachesRight.permCheckData {uid : Nat} {user : User} (huser : s.userGetById uid = some user)
    (hright : CachesRight V s eng user.id) (h : Heap) (now : UInt64) (resourceType : Bytes)
    (record : Option (Bytes × UserAddr)) :
    (permCheckData V h ⟨s, eng⟩ now uid resourceType record).map Prod.fst =
      (dataAnswer V ((CheckRequest.data resourceType record).heap h) s eng now
        ((CheckRequest.data resourceType record).context user)).map dataResult ∧
    ∀ out, permCheckData V h ⟨s, eng⟩ now uid resourceType record = some out →
      out.2.store = s ∧ CachesRight V s out.2.engine user.id ∧
      ∃ e, SsoSystem.evaluateInternal V ((CheckRequest.data resourceType record).heap h) s eng now
        ((CheckRequest.data resourceType record).context user) = some e ∧
          e.1 = out.1.allowed ∧ e.2.2 = out.2.engine := by
  have hctx : CachesRight V s eng ((data resourceType record).context user).userId :=
    hright
  have hanswer := hctx.evaluate rfl ((data resourceType record).heap h) now
  rw [← hanswer]
  unfold SsoSystem.permCheckData permCheck
  simp only [huser]
  cases he : SsoSystem.evaluateInternal V ((data resourceType record).heap h) s eng
      now ((data resourceType record).context user) with
  | none => simp
  | some r =>
    have hview : SameView r.2.1 ((data resourceType record).context user) := by
      refine sameView_evaluateInternal ?_ ?_ he
      · rw [hctx.lists.policiesFor]
        exact idsConsistent_resolve _ _
      · rw [hctx.lists.policiesFor]
        exact hctx.rules
    have hdestroy := hview.destroy_eq.trans (destroy_of_data user resourceType record)
    simp only [hdestroy, map_some, some.injEq]
    refine ⟨rfl, ?_⟩
    rintro out rfl
    exact ⟨rfl, hctx.evaluateInternal he, r, rfl, rfl, rfl⟩

end Asked

/-! ## §5 Asking twice -/

section Twice

variable (V : Vendor) (h : Heap) (s : Store) (eng : Engine) (now now' : UInt64)
  (ctx ctx' : EvalContext)

/-- The last list of the matching allow policies is part of all of them. -/
def LastIsLeast : Prop :=
  ∀ last ∈ (allowLists V h s ctx (userPolicies s ctx)).getLast?,
    ∀ fields ∈ allowLists V h s ctx (userPolicies s ctx), last ⊆ fields

/-- Whether the second of two questions reads a slot of level 2 that the first has not written:
it was answered from there itself, there is no policy, or the slot is another one. -/
def Unwritten : Prop :=
  (cachedDecision eng now ctx).isSome = true ∨ userPolicies s ctx = [] ∨
    (hashParams ctx').toNat % 1024 ≠ (hashParams ctx).toNat % 1024

instance : Decidable (Unwritten s eng now ctx ctx') := inferInstanceAs (Decidable (_ ∨ _ ∨ _))

/-- Whether the second of two questions is answered from level 2, on the engine before the
first. -/
def CachedAgain : Prop :=
  if Unwritten s eng now ctx ctx' then (cachedDecision eng now' ctx').isSome = true
  else hashParams ctx' = hashParams ctx ∧ now' - now < 30000

/-- The list of an allowed question is part of the list of every matching allow policy that
restricts fields; no list at all is part of none. -/
def ListContained (r : CheckResult) : Prop :=
  r.allowed = true → ∀ p ∈ userPolicies s ctx, vote V h s ctx p = .allow →
    ∀ fields ∈ policyFields V p, ∃ list, r.fieldFilter = some list ∧ list ⊆ fields

/-- The policies agree to a question. -/
def Allowed : Prop :=
  (∃ p ∈ userPolicies s ctx, vote V h s ctx p = .allow) ∧
    ∀ p ∈ userPolicies s ctx, vote V h s ctx p ≠ .deny

end Twice

section TwiceIff

variable {V : Vendor} {h h' : Heap} {s : Store} {eng eng' : Engine} {now now' : UInt64}
  {ctx ctx' : EvalContext} {d : Bool}

theorem allowed_iff (hd : policyDecision V h s ctx = some d) : Allowed V h s ctx ↔ d = true := by
  rw [(combine_eq_some_iff.mp hd).2, decide_eq_true_eq]
  simp [Allowed]

/-- What an evaluation leaves in the cache for another question of the user. -/
theorem cachedDecision_after (hlists : ListsInv s eng) (huid : ctx'.userId = ctx.userId)
    {out : Bool × EvalContext × Engine} (he : evaluateInternal V h s eng now ctx = some out) :
    cachedDecision out.2.2 now' ctx' =
      if Unwritten s eng now ctx ctx' then cachedDecision eng now' ctx'
      else if hashParams ctx' = hashParams ctx ∧ now' - now < 30000 then some out.1 else none := by
  cases hlook : cachedDecision eng now ctx with
  | some b =>
    have hhit : eng.lookupL2 ctx.userId (hashParams ctx) now = some b := hlook
    have hunwritten : Unwritten s eng now ctx ctx' := .inl (by simp [hlook])
    rw [evaluateInternal, hhit] at he
    cases he
    rw [if_pos hunwritten]
  | none =>
    obtain ⟨eng', heng, heq⟩ := evaluateInternal_miss (V := V) (h := h) (s := s) hlook
    have hresults : eng'.resultCache = eng.resultCache := by
      rcases heng with rfl | rfl
      · rfl
      · exact writeL1_resultCache ..
    rw [heq, hlists.policiesFor, decideOn] at he
    split at he
    · next hnil =>
      have hunwritten : Unwritten s eng now ctx ctx' := .inr (.inl hnil)
      cases he
      rw [if_pos hunwritten]
      simp only [cachedDecision, Engine.lookupL2, hresults]
    · next hne =>
      obtain ⟨⟨allowed, ctx₁, eng₁⟩, hloop, rfl⟩ := map_eq_some_iff.mp he
      have hsame : eng₁.resultCache = eng.resultCache :=
        (sameResults_evalLoop hloop).resultCache.trans hresults
      by_cases hslot : (hashParams ctx').toNat % 1024 = (hashParams ctx).toNat % 1024
      · have hwritten : ¬ Unwritten s eng now ctx ctx' := by
          simp [Unwritten, hlook, userPolicies, hne, hslot]
        rw [if_neg hwritten]
        simp [cachedDecision, Engine.lookupL2, Engine.writeL2, hslot, huid, eq_comm]
      · have hunwritten : Unwritten s eng now ctx ctx' := .inr (.inr hslot)
        rw [if_pos hunwritten]
        simp [cachedDecision, Engine.lookupL2, Engine.writeL2, hslot, hsame]

/-- The answer to a question whose cached decision, if there is one, is that of the policies. -/
theorem dataAnswer_eq
    (hcached : ∀ b, cachedDecision eng now ctx = some b → policyDecision V h s ctx = some b)
    (hd : policyDecision V h s ctx = some d) : dataAnswer V h s eng now ctx =
      some (d, if (cachedDecision eng now ctx).isSome then none else policyList V h s ctx) := by
  unfold dataAnswer
  cases hl : cachedDecision eng now ctx with
  | some b =>
    obtain rfl : b = d := Option.some.inj ((hcached b hl).symm.trans hd)
    rfl
  | none => simp [hd]

theorem policyDecision_of_dataAnswer {r : CheckResult}
    (hcached : ∀ b, cachedDecision eng now ctx = some b → policyDecision V h s ctx = some b)
    (hanswer : (dataAnswer V h s eng now ctx).map dataResult = some r) :
    ∃ d, policyDecision V h s ctx = some d := by
  cases hl : cachedDecision eng now ctx with
  | some b => exact ⟨b, hcached b hl⟩
  | none =>
    rw [dataAnswer, hl] at hanswer
    cases hd : policyDecision V h s ctx with
    | none => simp [hd] at hanswer
    | some d => exact ⟨d, rfl⟩

theorem dataResult_inj {list list' : Option (List Bytes)} :
    dataResult (d, list') = dataResult (d, list) ↔ list' = list := by
  simp [dataResult]

theorem policyList_eq_none_iff :
    policyList V h s ctx = none ↔ Unrestricted V h s ctx (userPolicies s ctx) := by
  rw [policyList, shownFields_eq_none_iff]
  exact and_iff_right rfl

theorem listContained_iff (hd : policyDecision V h s ctx = some d) :
    ListContained V h s ctx (dataResult (d, if (cachedDecision eng now ctx).isSome then none
        else policyList V h s ctx)) ↔
      (Allowed V h s ctx → if (cachedDecision eng now ctx).isSome
        then Unrestricted V h s ctx (userPolicies s ctx) else LastIsLeast V h s ctx) := by
  rw [allowed_iff hd]
  refine forall_congr' fun hallow => ?_
  obtain rfl : d = true := hallow
  have hlist : policyList V h s ctx = (allowLists V h s ctx (userPolicies s ctx)).getLast? :=
    shownFields_of_allowed hd
  have hall : (∀ p ∈ userPolicies s ctx, vote V h s ctx p = .allow → ∀ fields ∈ policyFields V p,
      ∃ list, (if (cachedDecision eng now ctx).isSome then none else policyList V h s ctx) =
        some list ∧ list ⊆ fields) ↔ ∀ fields ∈ allowLists V h s ctx (userPolicies s ctx),
      ∃ list, (if (cachedDecision eng now ctx).isSome then none else policyList V h s ctx) =
        some list ∧ list ⊆ fields := by
    simp only [mem_allowLists]
    constructor
    · rintro hall fields ⟨p, hp, hvote, hfields⟩
      exact hall p hp hvote fields hfields
    · intro hall p hp hvote fields hfields
      exact hall fields ⟨p, hp, hvote, hfields⟩
  simp only [dataResult]
  rw [hall]
  split
  · -- no list is shown, so there may be none to show
    rw [← policyList_eq_none_iff, hlist, getLast?_eq_none_iff]
    constructor
    · intro hnone
      refine eq_nil_iff_forall_not_mem.mpr fun fields hfields => ?_
      obtain ⟨list, heq, -⟩ := hnone fields hfields
      cases heq
    · intro hnil fields hfields
      rw [hnil] at hfields
      cases hfields
  · rw [hlist, LastIsLeast]
    constructor
    · intro hshown last hlast fields hfields
      obtain ⟨list, heq, hsub⟩ := hshown fields hfields
      obtain rfl : last = list := Option.some.inj (hlast.symm.trans heq)
      exact hsub
    · intro hleast fields hfields
      obtain ⟨last, hlast⟩ := Option.isSome_iff_exists.mp
        (getLast?_isSome.mpr (ne_nil_of_mem hfields))
      exact ⟨last, hlast, hleast last hlast fields hfields⟩

end TwiceIff

/-- **Field filter**: a question and the same question again, the record copied to wherever
the allocator puts it, where the cached decisions are those of the policies and no policy votes
by the address of the copy. The first list is part of every list it should be part of, and the
second answer is the first, exactly under these conditions. -/
theorem fieldFilter_iff {V : Vendor} {h h' : Heap} {s : Store} {eng : Engine} {now now' : UInt64}
    {uid : Nat} {user : User} (huser : s.userGetById uid = some user)
    (hright : CachesRight V s eng user.id) (resourceType : Bytes) (record : Option Bytes)
    (addr addr' : UserAddr) {r : CheckResult} {sys : System}
    (hfirst : permCheckData V h ⟨s, eng⟩ now uid resourceType (record.map (·, addr)) =
      some (r, sys)) :
    let first : CheckRequest := .data resourceType (record.map (·, addr))
    let second : CheckRequest := .data resourceType (record.map (·, addr'))
    let ctx := first.context user
    let ctx' := second.context user
    (∀ b, cachedDecision eng now ctx = some b → policyDecision V (first.heap h) s ctx = some b) →
    (∀ b, cachedDecision eng now' ctx' = some b →
      policyDecision V (second.heap h') s ctx' = some b) →
    (∀ p ∈ userPolicies s ctx, vote V (second.heap h') s ctx' p = vote V (first.heap h) s ctx p) →
    ((ListContained V (first.heap h) s ctx r ∧
      (permCheckData V h' sys now' uid resourceType (record.map (·, addr'))).map Prod.fst =
        some r) ↔
    (Allowed V (first.heap h) s ctx → if (cachedDecision eng now ctx).isSome
      then Unrestricted V (first.heap h) s ctx (userPolicies s ctx)
      else LastIsLeast V (first.heap h) s ctx) ∧
    (Unrestricted V (first.heap h) s ctx (userPolicies s ctx) ∨
      ((cachedDecision eng now ctx).isSome ↔ CachedAgain s eng now now' ctx ctx'))) := by
  intro first second ctx ctx' hcached hcached' hvotes
  obtain ⟨hanswer, hkeep⟩ := hright.permCheckData huser h now resourceType (record.map (·, addr))
  obtain ⟨hstore, hright', e, he, hallowed, hengine⟩ := hkeep _ hfirst
  obtain ⟨store', eng'⟩ := sys
  obtain rfl : store' = s := hstore
  obtain rfl : e.2.2 = eng' := hengine
  rw [hfirst, map_some] at hanswer
  obtain ⟨d, hd⟩ := policyDecision_of_dataAnswer hcached hanswer.symm
  -- the second time the policies decide and list the same
  have hd' : policyDecision V (second.heap h') store' ctx' = some d := by
    rw [← hd]
    exact congrArg (combine · false) (map_congr_left hvotes)
  have hlist' : policyList V (second.heap h') store' ctx' =
      policyList V (first.heap h) store' ctx := shownFields_of_votes hvotes
  have hr : r = dataResult (d, if (cachedDecision eng now ctx).isSome then none
      else policyList V (first.heap h) store' ctx) := by
    rw [dataAnswer_eq hcached hd] at hanswer
    exact Option.some.inj hanswer
  have hdecided : e.1 = d := by rw [hallowed, hr]; rfl
  -- and so does the cache, if it answers
  have huid : ctx'.userId = ctx.userId := by
    simp only [ctx, ctx', context, evalContextInit]
  have hafter := @cachedDecision_after V (first.heap h) store' eng now now' ctx ctx' hright.lists
    huid e he
  have hagain : (cachedDecision e.2.2 now' ctx').isSome = true ↔
      CachedAgain store' eng now now' ctx ctx' := by
    rw [hafter, CachedAgain]
    split
    · rfl
    · simp
  have hcachedAfter : ∀ b, cachedDecision e.2.2 now' ctx' = some b →
      policyDecision V (second.heap h') store' ctx' = some b := by
    intro b hb
    rw [hafter] at hb
    split at hb
    · exact hcached' b hb
    · rw [hd', ← hdecided]
      exact (Option.ite_none_right_eq_some.mp hb).2
  rw [(hright'.permCheckData huser h' now' resourceType (record.map (·, addr'))).1,
    dataAnswer_eq hcachedAfter hd', hlist', hr, listContained_iff hd, map_some, some.injEq,
    dataResult_inj, ← hagain, ← policyList_eq_none_iff]
  refine and_congr_right fun _ => ?_
  cases (cachedDecision eng now ctx).isSome <;> cases (cachedDecision e.2.2 now' ctx').isSome <;>
    simp [eq_comm]

/-- `{"resource_type":"staff","allowed_fields":["id","name"]}` and the same with "salary". -/
def staffRules (field : String) : Json :=
  .obj [(lit "resource_type", .str (lit "staff")),
    (lit "allowed_fields", .arr [.str (lit "id"), .str (lit field)])]

def staffVendor : Vendor :=
  .ofTable [(lit "names", staffRules "name"), (lit "salaries", staffRules "salary")]

def staffPolicy (id : Nat) (rules : String) : Policy where
  id := id
  name := lit rules
  strategyType := .data
  effect := .allow
  priority := 50
  rules := lit rules
  status := .enabled

/-- A store where the sample user has these policies. -/
def staffStore (ps : List Policy) : Store :=
  { memOpen with
    users := [sampleUser]
    policies := ps
    policyAssignments := ps.map fun p => ⟨p.id, .user, 1⟩ }

/-- `perm_check_data(ctx, 1, "staff", NULL, ...)`. -/
def staffRequest : CheckRequest := .data (lit "staff") none

/-- The request put to a new engine. -/
def askStaff (ps : List Policy) : Option (CheckResult × System) :=
  permCheckData staffVendor emptyHeap ⟨staffStore ps, permEngineCreate⟩ 0 1 (lit "staff") none

def nameFields : List Bytes := [lit "id", lit "name"]

def salaryFields : List Bytes := [lit "id", lit "salary"]

theorem cachesRight_staffStore (ps : List Policy)
    (hps : PoliciesOf (staffStore ps) (policyResolveForUser (staffStore ps) 1 64)) :
    CachesRight staffVendor (staffStore ps) permEngineCreate sampleUser.id :=
  ⟨.permEngineCreate _ hps, nofun⟩

/-- One list, asked for again when the cached decision has expired. -/
theorem singleList_repeats : ∃ r sys, askStaff [staffPolicy 1 "names"] = some (r, sys) ∧
    r.fieldFilter = some nameFields ∧
    ListContained staffVendor emptyHeap (staffStore [staffPolicy 1 "names"])
      (staffRequest.context sampleUser) r ∧
    (permCheckData staffVendor emptyHeap sys 40000 1 (lit "staff") none).map Prod.fst = some r := by
  have hasked : (askStaff [staffPolicy 1 "names"]).map (fun out => out.1.fieldFilter) =
      some (some nameFields) := by
    decide +kernel
  obtain ⟨⟨r, sys⟩, hfirst, hlist⟩ := map_eq_some_iff.mp hasked
  have hright := cachesRight_staffStore [staffPolicy 1 "names"]
    (by unfold PoliciesOf; decide +kernel)
  have hagain : ¬ CachedAgain (staffStore [staffPolicy 1 "names"]) permEngineCreate 0 40000
      (staffRequest.context sampleUser) (staffRequest.context sampleUser) := by
    unfold CachedAgain
    decide +kernel
  refine ⟨r, sys, hfirst, hlist, (fieldFilter_iff rfl hright (lit "staff") none .secondPage
    .secondPage hfirst nofun nofun fun _ _ => rfl).mpr
      ⟨fun _ => ?_, .inr (iff_of_false nofun hagain)⟩⟩
  have hlists : allowLists staffVendor emptyHeap (staffStore [staffPolicy 1 "names"])
      (staffRequest.context sampleUser) (userPolicies (staffStore [staffPolicy 1 "names"])
        (staffRequest.context sampleUser)) = [nameFields] := by
    decide +kernel
  intro last hlast fields hfields
  have hlast' : last ∈ [nameFields].getLast? := hlists ▸ hlast
  have hfields' : fields ∈ [nameFields] := hlists ▸ hfields
  rw [mem_singleton.mp hfields', ← some.inj hlast']
  exact List.Subset.refl _

/-- Two data policies of one user, with different lists. -/
def namesAndSalaries : List Policy := [staffPolicy 1 "names", staffPolicy 2 "salaries"]

/-- Of two lists the last one comes back, which is not part of the first, and a
second later there is none. -/
theorem secondList_missing : ∃ r sys, askStaff namesAndSalaries = some (r, sys) ∧
    r.allowed = true ∧ r.fieldFilter = some salaryFields ∧
    (vote staffVendor emptyHeap (staffStore namesAndSalaries) (staffRequest.context sampleUser)
      (staffPolicy 1 "names") = .allow ∧
      policyFields staffVendor (staffPolicy 1 "names") = some nameFields) ∧
    (permCheckData staffVendor emptyHeap sys 1000 1 (lit "staff") none).map Prod.fst =
      some { err := .ok, allowed := true, fieldFilter := none } := by
  have hasked : (askStaff namesAndSalaries).map (fun out => (out.1.allowed, out.1.fieldFilter,
      (permCheckData staffVendor emptyHeap out.2 1000 1 (lit "staff") none).map Prod.fst)) =
      some
        (true, some salaryFields, some { err := .ok, allowed := true, fieldFilter := none }) := by
    decide +kernel
  obtain ⟨⟨r, sys⟩, hfirst, hout⟩ := map_eq_some_iff.mp hasked
  obtain ⟨hallowed, hlist, hagain⟩ : _ ∧ _ ∧ _ := by simpa only [Prod.mk.injEq] using hout
  exact ⟨r, sys, hfirst, hallowed, hlist, by decide +kernel, hagain⟩

end SsoSystem
