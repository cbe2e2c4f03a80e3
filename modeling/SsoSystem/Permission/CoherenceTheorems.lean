/-
SsoSystem.Permission.CoherenceTheorems — the caches of a history do not show.

The invariant (`SystemInv`) says of each cache entry that it is what the
store says now: a compiled rule is the compilation of the policy with its
id, a list is the resolution of its user, a decision is the combination of
the votes on its request. Under the invariant every check decides as with
empty caches (`SystemInv.coherent`).
-/
import SsoSystem.Permission.ResultCacheTheorems
import SsoSystem.Permission.WriteTheorems

namespace SsoSystem

open CMem DenyOverride Run List Option Function

/-! ## §1 The invariant -/

variable (V : Vendor) (reqs : Set CheckRequest) (s : Store) (eng : Engine)

/-- Compiled rules stand in their home slot and belong to policies of the store. -/
def RulesInv : Prop :=
  ∀ i, (eng.cache i).policyId ≠ 0 → i = (eng.cache i).policyId % 256 ∧
    ∃ p, s.policyGetById (eng.cache i).policyId = some p ∧
      (eng.cache i).compiled = compileRules V p.strategyType p.rules

/-- Valid lists are what their user resolves to. -/
def ListsInv : Prop :=
  ∀ i, (eng.resCache i).valid = true →
    (eng.resCache i).policies.take (eng.resCache i).count =
      policyResolveForUser s (eng.resCache i).userId 64

/-- What every check of a user with this request decides on the store. -/
def Decides (uid : Nat) (req : CheckRequest) (b : Bool) : Prop :=
  ∀ (user : User) (h : Heap), user.id = uid →
    combine ((policyResolveForUser s uid 64).map (vote V h s (req.context user))) false = some b

/-- Valid decisions are those of the requests with their hash. -/
def DecisionsInv : Prop :=
  ∀ i, (eng.resultCache i).valid = true → ∀ req ∈ reqs, req.recordNull →
    req.paramsHash = (eng.resultCache i).paramsHash →
    Decides V s (eng.resultCache i).userId req (eng.resultCache i).allowed

structure SystemInv (V : Vendor) (reqs : Set CheckRequest) (sys : System) : Prop where
  store : StoreInv sys.store
  rules : RulesInv V sys.store sys.engine
  lists : ListsInv sys.store sys.engine
  decisions : DecisionsInv V reqs sys.store sys.engine

theorem systemInv_init : SystemInv V reqs .init where
  store := storeInv_memOpen
  rules := fun _ hi => absurd rfl hi
  lists := nofun
  decisions := nofun

/-! ## §2 Reading the caches -/

theorem hashParams_context (req : CheckRequest) (user : User) :
    hashParams (req.context user) = req.paramsHash :=
  hashParams_congr rfl

variable {req : CheckRequest} {p : Policy} {m : Mutation} {evs : List Event}

theorem vote_of_recordNull {V : Vendor} (hnull : req.recordNull) (s : Store)
    (user user' : User) (hid : user.id = user'.id) (h h' : Heap) :
    vote V h s (req.context user) = vote V h' s (req.context user') := by
  have hctx : req.context user = req.context user' := by
    unfold CheckRequest.context evalContextInit
    rw [hid]
  have hrec : (req.context user').record = 0 := hnull
  rw [hctx]
  refine vote_heap_congr ?_ s
  rw [hrec]
  rfl

theorem ListsInv.policiesFor {s : Store} {eng : Engine} (hlists : ListsInv s eng) (uid : Nat)
    (now : UInt64) : eng.policiesFor s uid now = policyResolveForUser s uid 64 := by
  unfold Engine.policiesFor
  split
  · next hhit =>
    simp only [Engine.hitL1, Bool.and_eq_true, beq_iff_eq] at hhit
    obtain ⟨⟨hvalid, huid⟩, -⟩ := hhit
    have hlist := hlists _ hvalid
    rw [huid] at hlist
    exact hlist
  · rfl

section Reading

variable {V : Vendor} {reqs : Set CheckRequest} {sys : System} (hinv : SystemInv V reqs sys)
include hinv

theorem SystemInv.policiesFor (uid : Nat) (now : UInt64) :
    sys.engine.policiesFor sys.store uid now = policyResolveForUser sys.store uid 64 :=
  hinv.lists.policiesFor uid now

theorem SystemInv.ruleCacheOk (uid : Nat) :
    RuleCacheOk V sys.engine (policyResolveForUser sys.store uid 64) := by
  intro i p hp hid
  have hget := policyGetById_of_mem_resolve hp
  have hne : (sys.engine.cache i).policyId ≠ 0 := by
    rw [hid]
    exact hinv.store.policyIdsNonzero p (mem_of_find?_eq_some hget)
  obtain ⟨-, q, hq, hcomp⟩ := hinv.rules i hne
  rw [hid, hget] at hq
  rw [hcomp, some.inj hq]

variable {now : UInt64} {req : CheckRequest}

theorem SystemInv.lookupL2 {uid : Nat} (hreq : req ∈ reqs) (hnull : req.recordNull) {b : Bool}
    (hl : sys.engine.lookupL2 uid req.paramsHash now = some b) : Decides V sys.store uid req b := by
  simp only [Engine.lookupL2, ite_none_right_eq_some, some.injEq] at hl
  obtain ⟨⟨hvalid, huid, hhash, -⟩, rfl⟩ := hl
  have hdec := hinv.decisions _ hvalid req hreq hnull hhash.symm
  rw [huid] at hdec
  exact hdec

theorem SystemInv.decidesOnStore {ctx : EvalContext}
    (hmiss : sys.engine.lookupL2 ctx.userId (hashParams ctx) now = none) :
    DecidesOnStore V sys.store sys.engine now ctx where
  miss := hmiss
  list := hinv.policiesFor _ _
  rules := hinv.ruleCacheOk _

/-- An evaluation decides what the store says, from whichever cache it takes it. -/
theorem SystemInv.evaluate (hreq : req ∈ reqs) (hnull : req.recordNull)
    (user : User) (h : Heap) (now : UInt64) :
    (evaluateInternal V h sys.store sys.engine now (req.context user)).map Prod.fst =
      combine ((policyResolveForUser sys.store user.id 64).map
        (vote V h sys.store (req.context user))) false := by
  cases hl : sys.engine.lookupL2 (req.context user).userId (hashParams (req.context user)) now with
  | none => exact (hinv.decidesOnStore hl).evaluate
  | some b =>
    have hhash := hl
    rw [hashParams_context] at hhash
    have hdec : combine ((policyResolveForUser sys.store user.id 64).map
        (vote V h sys.store (req.context user))) false = some b :=
      hinv.lookupL2 hreq hnull hhash user h rfl
    rw [hdec]
    simp only [evaluateInternal, hl, map_some]

/-- Every check decides as it would with empty caches. -/
theorem SystemInv.coherent : Coherent V reqs sys := by
  intro h now uid req hreq hnull
  cases hu : sys.store.userGetById uid with
  | none => simp [checkDecision, permCheck, hu]
  | some user =>
    have hview : ∀ out, evaluateInternal V (req.heap h) sys.store sys.engine now
        (req.context user) = some out → SameView out.2.1 (req.context user) := by
      intro out he
      refine sameView_evaluateInternal ?_ ?_ he
      · rw [hinv.policiesFor]
        exact idsConsistent_resolve _ _
      · rw [hinv.policiesFor]
        exact hinv.ruleCacheOk _
    rw [permCheck_eq hu hview, checkDecision_eq hinv.store.policyIdsNonzero hu,
      hinv.evaluate hreq hnull, freshDecision_eq_combine hinv.store.policyIdsNonzero]
    rfl

end Reading

/-! ## §3 A check keeps the invariant -/

variable {V : Vendor} {s : Store} {eng : Engine}

/-- The home slot of a policy of the store is free or its own: another policy
in it would have the same residue. -/
theorem RulesInv.home (hrules : RulesInv V s eng) (hs : StoreInv s) (hp : p ∈ s.policies) :
    (eng.cache (p.id % 256)).policyId = 0 ∨ (eng.cache (p.id % 256)).policyId = p.id := by
  by_cases h0 : (eng.cache (p.id % 256)).policyId = 0
  · exact .inl h0
  · obtain ⟨hhome, q, hq, -⟩ := hrules _ h0
    have hqid : q.id = (eng.cache (p.id % 256)).policyId := by
      simpa using find?_some hq
    rw [← hqid]
    exact .inr (hs.policyMods q (mem_of_find?_eq_some hq) p hp (by rw [hqid]; exact hhome.symm))

theorem RulesInv.cacheRule (hrules : RulesInv V s eng) (hs : StoreInv s)
    (hget : s.policyGetById p.id = some p) {c : Compiled}
    (hc : compileRules V p.strategyType p.rules = some c) :
    RulesInv V s (eng.cacheRule p.id c) := by
  have hfree := hrules.home hs (mem_of_find?_eq_some hget)
  intro i hi
  rcases cacheRule_slot hfree c i with heq | ⟨hhome, heq⟩
  · rw [heq] at hi ⊢
    exact hrules i hi
  · rw [heq]
    exact ⟨hhome, p, hget, hc.symm⟩

theorem ListsInv.writeL1 {s : Store} {eng : Engine} (hlists : ListsInv s eng) (uid : Nat)
    (now : UInt64) : ListsInv s (eng.writeL1 uid now (policyResolveForUser s uid 64)) := by
  intro i hi
  rcases writeL1_slot eng uid now (policyResolveForUser s uid 64) i with heq | ⟨-, -, huid, hlist⟩
  · rw [heq] at hi ⊢
    exact hlists i hi
  · rw [huid, hlist]

theorem DecisionsInv.writeL2 {reqs : Set CheckRequest} (hdiff : HashesDiffer reqs)
    (hdec : DecisionsInv V reqs s eng) {uid : Nat} (hreq : req ∈ reqs)
    {b : Bool} (hb : Decides V s uid req b) {ph : UInt32} (hph : ph = req.paramsHash)
    (now : UInt64) :
    DecisionsInv V reqs s (eng.writeL2 uid ph now b) := by
  intro i hi req' hreq' hnull' hhash
  unfold Engine.writeL2 at hi hhash ⊢
  by_cases hslot : i = ph.toNat % 1024
  · simp only [hslot, update_self] at hhash ⊢
    rw [hdiff req' hreq' req hreq (hhash.trans hph)]
    exact hb
  · simp only [update_of_ne hslot] at hi hhash ⊢
    exact hdec i hi req' hreq' hnull' hhash

section Check

variable {V : Vendor} {reqs : Set CheckRequest} (hdiff : HashesDiffer reqs)
include hdiff

variable {h : Heap} {now : UInt64} {out : Bool × EvalContext × Engine} {req : CheckRequest}
  {user : User}

/-- From the user's policies on: the loop caches rules, the end the decision. -/
theorem SystemInv.decideOn (hinv : SystemInv V reqs ⟨s, eng⟩)
    (hreq : req ∈ reqs) (hnull : req.recordNull)
    (he : decideOn V h s eng now (req.context user) (policyResolveForUser s user.id 64) =
      some out) : SystemInv V reqs ⟨s, out.2.2⟩ := by
  have hok : RuleCacheOk V eng (policyResolveForUser s user.id 64) := hinv.ruleCacheOk user.id
  have hcomb := decideOn_eq_combine (h := h) (s := s) (idsConsistent_resolve s user.id) hok now
    (req.context user)
  rw [he, map_some] at hcomb
  have hdec : Decides V s user.id req out.1 := by
    intro user' h' hid
    rw [vote_of_recordNull hnull s user' user hid h' h]
    exact hcomb.symm
  unfold SsoSystem.decideOn at he
  split at he
  · cases he
    exact hinv
  · obtain ⟨⟨allowed, ctx', eng'⟩, hloop, rfl⟩ := map_eq_some_iff.mp he
    have hrules : RulesInv V s eng' := by
      refine evalLoop_induct (P := RulesInv V s) (fun e p hp c hc hr => ?_) hinv.rules hloop
      exact hr.cacheRule hinv.store (policyGetById_of_mem_resolve hp) hc
    have hsame := sameResults_evalLoop hloop
    have hlists : ListsInv s eng' := by
      unfold ListsInv
      rw [hsame.resCache]
      exact hinv.lists
    have hdecs : DecisionsInv V reqs s eng' := by
      unfold DecisionsInv
      rw [hsame.resultCache]
      exact hinv.decisions
    exact ⟨hinv.store, hrules, hlists,
      hdecs.writeL2 hdiff hreq hdec (hashParams_context req user) now⟩

theorem SystemInv.evaluateInternal (hinv : SystemInv V reqs ⟨s, eng⟩)
    (hreq : req ∈ reqs) (hnull : req.recordNull)
    (he : evaluateInternal V h s eng now (req.context user) = some out) :
    SystemInv V reqs ⟨s, out.2.2⟩ := by
  rcases evaluateInternal_cases he with ⟨-, hout⟩ | ⟨eng', heng, hd⟩
  · rw [hout]
    exact hinv
  · rw [hinv.policiesFor] at hd
    refine SystemInv.decideOn hdiff ?_ hreq hnull hd
    rcases heng with rfl | rfl
    · exact hinv
    · refine ⟨hinv.store, ?_, hinv.lists.writeL1 user.id now, ?_⟩
      · unfold RulesInv
        rw [writeL1_cache]
        exact hinv.rules
      · unfold DecisionsInv
        rw [writeL1_resultCache]
        exact hinv.decisions

theorem SystemInv.check {sys : System} (hinv : SystemInv V reqs sys)
    (hreq : req ∈ reqs) (hnull : req.recordNull) {uid : Nat}
    {out : CheckResult × System} (hc : permCheck V h sys now uid req = some out) :
    SystemInv V reqs out.2 := by
  unfold permCheck at hc
  cases hu : sys.store.userGetById uid with
  | none =>
    simp only [hu, some.injEq] at hc
    rw [← hc]
    exact hinv
  | some user =>
    simp only [hu] at hc
    cases he : SsoSystem.evaluateInternal V (req.heap h) sys.store sys.engine now
        (req.context user) with
    | none => simp [he] at hc
    | some r =>
      simp only [he] at hc
      obtain ⟨-, -, rfl⟩ := map_eq_some_iff.mp hc
      have hsys : SystemInv V reqs ⟨sys.store, sys.engine⟩ := hinv
      exact hsys.evaluateInternal hdiff hreq hnull he

end Check

/-! ## §4 A management call keeps the invariant -/

variable {V : Vendor} {reqs : Set CheckRequest} {sys : System} {b : Bool}

theorem SystemInv.mutation (hinv : SystemInv V reqs sys)
    (hdom : m.inDomain sys.store) (hpar : m.parentsKnown sys.store) :
    SystemInv V reqs (m.run sys).2 := by
  unfold Mutation.run mutate
  split
  · exact hinv
  · next s' hw =>
    have hsame : ∀ {uid}, ¬ m.invalidation.covers uid → SameForUser sys.store s' uid :=
      fun hnot => sameForUser_of_write hinv.store hpar hw hnot
    refine ⟨hinv.store.write (Mutation.wellNumbered_of_inDomain hdom) hw, ?_, ?_, ?_⟩
    · intro i hi
      have hslot : ∀ pid, m.invalidation = .policy pid → pid ≠ 0 ∧
          ((sys.engine.cache (pid % 256)).policyId = 0 ∨
            (sys.engine.cache (pid % 256)).policyId = pid) := by
        intro pid hpid
        obtain ⟨p, hp, rfl⟩ := exists_policy_of_write hw hpid
        exact ⟨hinv.store.policyIdsNonzero p hp, hinv.rules.home hinv.store hp⟩
      obtain ⟨heq, hnot⟩ := apply_cache (fun i hi => (hinv.rules i hi).1) hslot hi
      simp only [heq] at hi ⊢
      obtain ⟨hhome, p, hp, hcomp⟩ := hinv.rules i hi
      refine ⟨hhome, p, policyGetById_of_write hw (fun he => hnot ?_) hp, hcomp⟩
      rw [he]
      rfl
    · intro i hv
      obtain ⟨heq, hnot⟩ := apply_resCache hv
      simp only [heq] at hv ⊢
      rw [hinv.lists i hv]
      exact (hsame hnot).resolve
    · intro i hv req hreq hnull hhash
      obtain ⟨heq, hnot⟩ := apply_resultCache hv
      simp only [heq] at hv hhash ⊢
      intro user h hid
      have hctx : userHasRole sys.store (req.context user).userId =
          userHasRole s' (req.context user).userId := by
        show userHasRole _ user.id = userHasRole _ user.id
        rw [hid]
        exact (hsame hnot).hasRole
      rw [← (hsame hnot).resolve, ← vote_store_congr hctx]
      exact hinv.decisions i hv req hreq hnull hhash user h hid

/-! ## §5 Histories -/

theorem SystemInv.step (hdiff : HashesDiffer reqs) (sys : System) (ev : Event) (sys' : System)
    (hinv : SystemInv V reqs sys) (hcond : InDomain reqs sys ev ∧ ParentsKnown sys ev)
    (hstep : ev.step V sys = some sys') : SystemInv V reqs sys' := by
  cases ev with
  | manage m =>
    cases hstep
    exact hinv.mutation hcond.1 hcond.2
  | check h now uid req =>
    obtain ⟨out, hout, rfl⟩ := map_eq_some_iff.mp hstep
    exact SystemInv.check hdiff hinv hcond.1.1 hcond.1.2 hout

theorem systemInv_of_history (hdiff : HashesDiffer reqs)
    (hdom : Along (Event.step V) (InDomain reqs) evs .init)
    (hpar : Along (Event.step V) ParentsKnown evs .init) (hrun : history V evs = some sys) :
    SystemInv V reqs sys :=
  invariant_of_run (SystemInv.step hdiff) (systemInv_init V reqs) (hdom.and hpar) hrun

/-- In every state of a history in which no role or group waits for one that
is created, every check decides as an engine with empty caches would. -/
theorem coherent_of_history {V : Vendor} {reqs : Set CheckRequest} {evs : List Event}
    {sys : System} (hdiff : HashesDiffer reqs)
    (hdom : Along (Event.step V) (InDomain reqs) evs .init)
    (hpar : Along (Event.step V) ParentsKnown evs .init) (hrun : history V evs = some sys) :
    Coherent V reqs sys :=
  (systemInv_of_history hdiff hdom hpar hrun).coherent

/-! ### A role that was waited for -/

/-- `perm_check_function(ctx, uid, "report:read", ...)`. -/
def reportRequest : CheckRequest := .function (lit "report:read")

theorem hashesDiffer_singleton (req : CheckRequest) : HashesDiffer {req} :=
  fun _ hr _ hr' _ => hr.trans hr'.symm

/-- A first role, a user, a check of that user. -/
def firstEvents : List Event :=
  [.manage (.roleCreate (lit "staff") 0), .manage (.userCreate sampleUser),
    .check emptyHeap 0 1 reportRequest]

theorem firstEvents_coherent :
    ∃ sys, history matchAllVendor firstEvents = some sys ∧
      Coherent matchAllVendor {reportRequest} sys := by
  have hrun : ∃ sys, history matchAllVendor firstEvents = some sys := ⟨_, rfl⟩
  obtain ⟨sys, hsys⟩ := hrun
  refine ⟨sys, hsys, coherent_of_history (hashesDiffer_singleton _) ?_ ?_ hsys⟩
  · refine ⟨trivial, fun _ _ => ⟨trivial, fun _ _ => ⟨⟨rfl, ?_⟩, fun _ _ => trivial⟩⟩⟩
    unfold CheckRequest.recordNull
    decide
  · exact ⟨⟨nofun, fun _ => rfl⟩, fun _ _ => ⟨trivial, fun _ _ => ⟨trivial, fun _ _ => trivial⟩⟩⟩

/-- Role 2 names role 3 as its parent before there is one. Role 1 carries a
deny of everything, role 2 an allow; the user has role 2. -/
def waitingEvents : List Event :=
  [.manage (.roleCreate (lit "base") 0), .manage (.roleCreate (lit "staff") 3),
    .manage (.policyCreate (lit "staff") .abac .allow 0 matchAllRules),
    .manage (.policyCreate (lit "freeze") .abac .deny 100 denyAllRules),
    .manage (.policyAssignTo 1 .role 2), .manage (.policyAssignTo 2 .role 1),
    .manage (.userCreate sampleUser), .manage (.roleAssignToUser 2 1)]

/-- The role between the two. -/
def bridgeRole : Mutation := .roleCreate (lit "bridge") 1

theorem along_manage {cond : System → Event → Prop}
    (hm : cond sys (.manage m)) (hrest : Along (Event.step V) cond evs (m.run sys).2) :
    Along (Event.step V) cond (.manage m :: evs) sys :=
  ⟨hm, fun _ hs => some.inj hs ▸ hrest⟩

theorem inDomain_waitingEvents :
    Along (Event.step matchAllVendor) (InDomain {reportRequest}) waitingEvents .init := by
  have hids : ∀ p ∈ [matchAllPolicy], p.id % 256 ≠ 2 % 256 := by decide
  exact along_manage trivial <| along_manage trivial <| along_manage nofun <| along_manage hids <|
    along_manage ⟨rfl, rfl⟩ <| along_manage ⟨rfl, rfl⟩ <| along_manage trivial <|
    along_manage ⟨rfl, rfl⟩ trivial

/-- Creating the role the user's role waited for brings the deny into reach,
but the allow stays in the cache. -/
theorem bridgeRole_leaves_stale_decision :
    ∃ evs sys, HashesDiffer {reportRequest} ∧
      Along (Event.step matchAllVendor) (InDomain {reportRequest}) evs .init ∧
      history matchAllVendor evs = some sys ∧ ¬ Coherent matchAllVendor {reportRequest} sys := by
  have hseen : (history matchAllVendor (waitingEvents ++
      [.check emptyHeap 0 1 reportRequest, .manage bridgeRole])).map (fun sys =>
        ((permCheck matchAllVendor emptyHeap sys 0 1 reportRequest).map (·.1.allowed),
          checkDecision matchAllVendor emptyHeap sys.store 0 1 reportRequest)) =
      some (some true, some false) := by
    decide +kernel
  have hnull : reportRequest.recordNull := by unfold CheckRequest.recordNull; decide
  obtain ⟨sys, hsys, hdecisions⟩ := map_eq_some_iff.mp hseen
  obtain ⟨hallow, hdeny⟩ := Prod.mk.inj hdecisions
  refine ⟨_, sys, hashesDiffer_singleton reportRequest, ?_, hsys, fun hcoherent => ?_⟩
  · refine inDomain_waitingEvents.append fun s' hs' => ?_
    exact ⟨⟨rfl, hnull⟩, fun _ _ => ⟨trivial, fun _ _ => trivial⟩⟩
  · have hsame := hcoherent emptyHeap 0 1 reportRequest rfl hnull
    rw [hallow, hdeny] at hsame
    cases hsame

/-! ## §6 Decisions -/

/-- **Decisions.** In every state of such a history, whatever the caches hold, a check allows
exactly if one of the first 64 policies collected from the store allows, none of them denies
or fails to return, and the context can be destroyed. -/
theorem history_allows_iff {uid : Nat} {user : User} (hdiff : HashesDiffer reqs)
    (hdom : Along (Event.step V) (InDomain reqs) evs .init)
    (hpar : Along (Event.step V) ParentsKnown evs .init) (hrun : history V evs = some sys)
    (hreq : req ∈ reqs) (hnull : req.recordNull) (huser : sys.store.userGetById uid = some user)
    (h : Heap) (now : UInt64) :
    let votes := ((entries sys.store uid).take 64).map
      (vote V (req.heap h) sys.store (req.context user))
    (permCheck V h sys now uid req).map (·.1.allowed) = some true ↔
      .allow ∈ votes ∧ .deny ∉ votes ∧ .stuck ∉ votes ∧ (req.context user).destroy.isSome := by
  intro votes
  have hinv := systemInv_of_history hdiff hdom hpar hrun
  have hids := hinv.store.policyIdsNonzero
  have hid : (req.context user).userId = uid := Store.userGetById_id huser
  have hmem : ∀ v, v ∈ (policyResolveForUser sys.store uid 64).map _ ↔ v ∈ votes :=
    fun _ => ((policyResolveForUser_perm sys.store uid).map _).mem_iff
  rw [hinv.coherent h now uid req hreq hnull, checkDecision_eq hids huser,
    freshDecision_eq_combine hids, hid]
  cases (req.context user).destroy with
  | none => simp
  | some _ => simp [combine_eq_some_true_iff, hmem]

/-- A policy that allows everything, assigned to a user. -/
def grantingEvents : List Event :=
  [.manage (.policyCreate (lit "staff") .abac .allow 0 matchAllRules),
    .manage (.userCreate sampleUser), .manage (.policyAssignTo 1 .user 1)]

theorem grantingEvents_allow : ∃ sys, history matchAllVendor grantingEvents = some sys ∧
    (permCheck matchAllVendor emptyHeap sys 0 1 reportRequest).map (·.1.allowed) = some true := by
  have hrun : history matchAllVendor grantingEvents = some _ := rfl
  refine ⟨_, hrun, (history_allows_iff (hashesDiffer_singleton _) ?_ ?_ hrun rfl ?_ rfl _ _).mpr ?_⟩
  · exact along_manage nofun <| along_manage trivial <| along_manage ⟨rfl, rfl⟩ trivial
  · exact along_manage trivial <| along_manage trivial <| along_manage trivial trivial
  · unfold CheckRequest.recordNull
    decide
  · decide +kernel

end SsoSystem
