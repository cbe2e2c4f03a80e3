/-
SsoSystem.Permission.InterleavingTheorems — undisturbed interleavings are
fresh, and what happens when an invalidation overtakes an evaluation.

The invariant (`ThreadsInv`) says of every policy list that somebody holds,
a level 1 slot or an evaluation under way, that it is fresh with respect to
all returned writes, and so are the rules its policies had in it (`Held`). An
evaluation that is overtaken by an invalidation breaks it.
-/
import Mathlib.Tactic.IntervalCases
import SsoSystem.Permission.Interleaving

namespace SsoSystem

open CMem DenyOverride Run Versions List Option Function Store

/-! ## §1 Held lists -/

/-- A list of a user's policies that may still be decided on. -/
structure Held (V : Vendor) (T : Timeline Store) (done : List Nat) (uid : Nat)
    (ps : List Policy) : Prop where
  list : Fresh T done (listView uid) ps
  rules : ∀ p ∈ ps, Fresh T done (ruleView V p.id) (compileRules V p.strategyType p.rules)

section Frame

variable {V : Vendor} {T : Timeline Store} {done : List Nat} {uid : Nat}

/-- A write to the store makes no held list older than the calls that returned. -/
theorem Held.push {ps : List Policy} (hh : Held V T done uid ps)
    (hdone : ∀ v ∈ done, v ≤ T.last) (s : Store) : Held V (T.push s) done uid ps :=
  ⟨hh.list.push hdone s, fun p hp => (hh.rules p hp).push hdone s⟩

variable {used : List RuledPolicy}

theorem SetFresh.push (hf : SetFresh V T done uid used)
    (hdone : ∀ v ∈ done, v ≤ T.last) (s : Store) : SetFresh V (T.push s) done uid used :=
  ⟨hf.list.push hdone s, fun x hx => (hf.rules x hx).push hdone s⟩

/-- Fewer calls to respect make it easier. -/
theorem SetFresh.mono {done' : List Nat}
    (hf : SetFresh V T done uid used) (hsub : ∀ v ∈ done', v ∈ done) :
    SetFresh V T done' uid used :=
  ⟨hf.list.mono hsub, fun x hx => (hf.rules x hx).mono hsub⟩

/-- A list resolved now respects every call that returned. -/
theorem held_of_resolve (hdone : ∀ v ∈ done, v ≤ T.last) :
    Held V T done uid (policyResolveForUser (T.state T.last) uid 64) where
  list := fresh_of_last hdone rfl
  rules := by
    intro p hp
    refine fresh_of_last hdone ?_
    unfold ruleView
    rw [policyGetById_of_mem_resolve hp]
    rfl

end Frame

/-! ## §2 Calls under way -/

/-- What is known of a call between its write and its invalidation: the write
changes nothing for whom the invalidation does not cover. -/
structure CallOk (V : Vendor) (T : Timeline Store) (c : PendingCall) : Prop where
  le : c.version ≤ T.last
  lists : ∀ uid, ¬ c.invalidation.covers uid → Keeps T (listView uid) c.version
  rules : ∀ id, ¬ c.invalidation.coversPolicy id → Keeps T (ruleView V id) c.version
  policy : ∀ pid, c.invalidation = .policy pid → 0 < pid ∧ pid ≤ 256

variable {V : Vendor} {T : Timeline Store} {c : PendingCall} {uid t : Nat} {done : List Nat}
  {ps : List Policy} {s s' : Store} {m : Mutation} {eng : Engine} {σ : Threads} {e : Evaluation}

theorem CallOk.push (hc : CallOk V T c) (s : Store) : CallOk V (T.push s) c where
  le := Nat.le_succ_of_le hc.le
  lists := fun uid hn => (hc.lists uid hn).push hc.le s
  rules := fun id hn => (hc.rules id hn).push hc.le s
  policy := hc.policy

/-- The rules of a policy are covered only together with everybody's results. -/
theorem Invalidation.not_coversPolicy {inv : Invalidation} (hn : ¬ inv.covers uid) (id : Nat) :
    ¬ inv.coversPolicy id := by
  cases inv with
  | policy | all => exact absurd trivial hn
  | _ => exact not_false

/-- The return of a call that does not cover the user changes nothing for the list. -/
theorem Held.complete (hh : Held V T done uid ps) (hc : CallOk V T c)
    (hn : ¬ c.invalidation.covers uid) : Held V T (c.version :: done) uid ps :=
  ⟨hh.list.complete (hc.lists uid hn), fun p hp =>
    (hh.rules p hp).complete (hc.rules p.id (Invalidation.not_coversPolicy hn p.id))⟩

variable {used : List RuledPolicy} {eng' : Engine} {σ' : Threads}

theorem SetFresh.complete (hf : SetFresh V T done uid used)
    (hc : CallOk V T c) (hn : ¬ c.invalidation.covers uid) :
    SetFresh V T (c.version :: done) uid used :=
  ⟨hf.list.complete (hc.lists uid hn), fun x hx =>
    (hf.rules x hx).complete (hc.rules x.1.id (Invalidation.not_coversPolicy hn x.1.id))⟩

/-- A covered mutation has a target with a number. -/
theorem Mutation.wellNumbered_of_concernsCovered (hs : StoreInv s) (hcov : m.concernsCovered s) :
    m.wellNumbered s := by
  cases m with
  | policyCreate name strategy effect priority rules =>
    intro p hp
    have hlt := hs.policyIds p hp
    have hle : s.nextPid ≤ 256 := hcov
    omega
  | roleAssignToUser | groupAddUser | policyAssignTo => exact hcov
  | _ => trivial

/-- A user who is not covered has the same policies after the write. -/
theorem resolve_of_write (hs : StoreInv s) (hcov : m.concernsCovered s)
    (hw : m.storeWrite s = .ok s') (hnot : ¬ m.invalidation.covers uid) :
    policyResolveForUser s uid 64 = policyResolveForUser s' uid 64 := by
  cases m with
  | roleCreate name parent => exact resolve_roleCreate hs hcov hw uid
  | groupCreate name parent => exact (sameForUser_groupCreate hs hcov hw uid).resolve
  | _ =>
    refine (sameForUser_of_write hs ?_ hw hnot).resolve
    trivial

/-- So each call under way covers whom it concerns. -/
theorem callOk_of_write (hs : StoreInv (T.state T.last))
    (hids : ∀ p ∈ (T.state T.last).policies, p.id ≤ 256) (hcov : m.concernsCovered (T.state T.last))
    (hw : m.storeWrite (T.state T.last) = .ok s') :
    CallOk V (T.push s') { invalidation := m.invalidation, version := T.last + 1 } where
  le := Nat.le_refl _
  lists := by
    intro uid hn ps hps
    have hbefore : (T.push s').state (T.last + 1 - 1) = T.state T.last :=
      Timeline.push_state_of_le (Nat.le_refl _) s'
    have hafter : (T.push s').state (T.last + 1) = s' := T.push_state_last s'
    rw [hbefore] at hps
    rw [hafter, ← hps]
    exact congrArg some (resolve_of_write hs hcov hw hn).symm
  rules := by
    intro id hn c hc
    have hbefore : (T.push s').state (T.last + 1 - 1) = T.state T.last :=
      Timeline.push_state_of_le (Nat.le_refl _) s'
    have hafter : (T.push s').state (T.last + 1) = s' := T.push_state_last s'
    rw [hbefore] at hc
    rw [hafter]
    obtain ⟨p, hp, rfl⟩ := map_eq_some_iff.mp hc
    have hne : m.invalidation ≠ .policy id := by
      intro he
      rw [he] at hn
      exact hn rfl
    unfold ruleView
    rw [policyGetById_of_write hw hne hp]
    rfl
  policy := by
    intro pid hpid
    obtain ⟨p, hp, rfl⟩ := exists_policy_of_write hw hpid
    exact ⟨(hs.policyIds p hp).1, hids p hp⟩

/-! ## §3 The invariant -/

/-- A slot of the rule cache: at home, and fresh. -/
def RulesFresh (V : Vendor) (T : Timeline Store) (done : List Nat) (eng : Engine) : Prop :=
  ∀ i, (eng.cache i).policyId ≠ 0 → i = (eng.cache i).policyId % 256 ∧
    (eng.cache i).policyId ≤ 256 ∧
    Fresh T done (ruleView V (eng.cache i).policyId) (eng.cache i).compiled

/-- What an evaluation holds; one that hit level 1 holds what its slot holds. -/
def PhaseOk (V : Vendor) (T : Timeline Store) (done : List Nat) (eng : Engine)
    (e : Evaluation) : Prop :=
  match e.phase with
  | .missed => True
  | .hit count => (eng.resCache (e.ctx.userId % 128)).userId = e.ctx.userId ∧
      (eng.resCache (e.ctx.userId % 128)).count = count ∧
      Held V T done e.ctx.userId (eng.readL1 e.ctx.userId count)
  | .resolved ps => Held V T done e.ctx.userId ps
  | .listed ps => Held V T done e.ctx.userId ps
  | .decided used _ => SetFresh V T done e.ctx.userId used

structure ThreadsInv (V : Vendor) (σ : Threads) : Prop where
  current : σ.timeline.state σ.timeline.last = σ.store
  store : StoreInv σ.store
  nextPid : σ.store.nextPid ≤ 257
  ids : ∀ k ≤ σ.timeline.last, ∀ p ∈ (σ.timeline.state k).policies, 0 < p.id ∧ p.id ≤ 256
  returned : ∀ v ∈ σ.returned, v ≤ σ.timeline.last
  calls : ∀ t c, σ.calls t = some c → CallOk V σ.timeline c
  since : ∀ t e, σ.evals t = some e → ∀ v ∈ e.since, v ∈ σ.returned
  rules : RulesFresh V σ.timeline σ.returned σ.engine
  lists : ∀ i, (σ.engine.resCache i).valid = true →
    Held V σ.timeline σ.returned (σ.engine.resCache i).userId
      ((σ.engine.resCache i).policies.take (σ.engine.resCache i).count)
  decisions : ∀ i, (σ.engine.resultCache i).valid = true →
    SetFresh V σ.timeline σ.returned (σ.engine.resultCache i).userId (σ.origin i)
  evals : ∀ t e, σ.evals t = some e → PhaseOk V σ.timeline σ.returned σ.engine e

/-- The invariant at the start. -/
theorem threadsInv_init (V : Vendor) : ThreadsInv V .init where
  current := rfl
  store := storeInv_memOpen
  nextPid := by decide
  ids := nofun
  returned := nofun
  calls := nofun
  since := nofun
  rules := fun _ hi => absurd rfl hi
  lists := nofun
  decisions := nofun
  evals := nofun

/-- A fresh list with fresh rules is fresh. -/
theorem setFresh_ruled (hrules : RulesFresh V T done eng)
    (hids : ∀ k ≤ T.last, ∀ p ∈ (T.state k).policies, 0 < p.id) (hh : Held V T done uid ps) :
    SetFresh V T done uid (ruled V eng ps) where
  list := by
    have hfst : (ruled V eng ps).map Prod.fst = ps := by
      unfold ruled
      rw [List.map_map]
      exact List.map_id ps
    rw [hfst]
    exact hh.list
  rules := by
    intro x hx
    obtain ⟨p, hp, rfl⟩ := List.mem_map.mp hx
    show Fresh T done (ruleView V p.id) (compiledFor V eng p).1
    have hown := hh.rules p hp
    have hpos : p.id ≠ 0 := by
      obtain ⟨k, hk, hview, -⟩ := hown
      obtain ⟨q, hq, -⟩ := Option.map_eq_some_iff.mp hview
      have hqid : q.id = p.id := by simpa using List.find?_some hq
      have := hids k hk q (List.mem_of_find?_eq_some hq)
      omega
    unfold compiledFor
    cases hg : eng.getCachedRule p.id with
    | some c =>
      obtain ⟨i, -, hid, hci⟩ := getCachedRule_eq_some hg
      have hslot := (hrules i (by rw [hid]; exact hpos)).2.2
      rw [hid, hci] at hslot
      exact hslot
    | none =>
      cases hc : compileRules V p.strategyType p.rules with
      | some | none => rw [hc] at hown; exact hown

/-- The invariant says what is wanted of the caches. -/
theorem ThreadsInv.freshState (hinv : ThreadsInv V σ) : FreshState V σ where
  lists := fun i hv => (hinv.lists i hv).list
  decisions := hinv.decisions
  evaluations := by
    intro t e he used hused
    have hpos : ∀ k ≤ σ.timeline.last, ∀ p ∈ (σ.timeline.state k).policies, 0 < p.id :=
      fun k hk p hp => (hinv.ids k hk p hp).1
    refine SetFresh.mono ?_ (hinv.since t e he)
    have hphase := hinv.evals t e he
    unfold Evaluation.policySet at hused
    unfold PhaseOk at hphase
    cases hp : e.phase with
    | missed => simp [hp] at hused
    | hit count =>
      simp only [hp, some.injEq] at hused hphase
      rw [← hused]
      exact setFresh_ruled hinv.rules hpos hphase.2.2
    | resolved | listed =>
      simp only [hp, some.injEq] at hused hphase
      rw [← hused]
      exact setFresh_ruled hinv.rules hpos hphase
    | decided used' allowed =>
      simp only [hp, some.injEq] at hused hphase
      rw [← hused]
      exact hphase

/-! ## §4 Sections of an evaluation -/

/-- Only an evaluation that is reading a cached list depends on the engine. -/
theorem PhaseOk.of_not_hit (hp : PhaseOk V T done eng e)
    (hnot : ∀ count, e.phase ≠ .hit count) : PhaseOk V T done eng' e := by
  unfold PhaseOk at hp ⊢
  cases hphase : e.phase with
  | hit count => exact absurd hphase (hnot count)
  | missed => trivial
  | resolved | listed | decided => simpa only [hphase] using hp

theorem PhaseOk.of_slot (hp : PhaseOk V T done eng e)
    (huid : (eng'.resCache (e.ctx.userId % 128)).userId =
    (eng.resCache (e.ctx.userId % 128)).userId)
    (hcount : (eng'.resCache (e.ctx.userId % 128)).count =
    (eng.resCache (e.ctx.userId % 128)).count)
    (hpols : (eng'.resCache (e.ctx.userId % 128)).policies =
    (eng.resCache (e.ctx.userId % 128)).policies) :
    PhaseOk V T done eng' e := by
  cases hphase : e.phase with
  | hit count =>
    unfold PhaseOk at hp ⊢
    simp only [hphase, Engine.readL1] at hp ⊢
    rw [huid, hcount, hpols]
    exact hp
  | _ => exact hp.of_not_hit (by simp [hphase])

/-- A thread moves on and the engine stays. -/
theorem ThreadsInv.setEval (hinv : ThreadsInv V σ) (t : Nat) {next : Option Evaluation}
    (hsince : ∀ e, next = some e → ∀ v ∈ e.since, v ∈ σ.returned)
    (hphase : ∀ e, next = some e → PhaseOk V σ.timeline σ.returned σ.engine e) :
    ThreadsInv V (σ.setEval t next) where
  __ := hinv
  since := forall_update_some hsince hinv.since
  evals := forall_update_some hphase hinv.evals

/-- A lookup starts an evaluation, which has to respect the calls returned so far. -/
theorem ThreadsInv.lookup (hinv : ThreadsInv V σ) (t : Nat) (ctx : EvalContext) (now : UInt64) :
    ThreadsInv V (σ.lookup t ctx now) := by
  unfold Threads.lookup
  split
  · exact hinv
  · split
    · next hhit =>
      simp only
      split
      · exact hinv
      · refine hinv.setEval t ?_ ?_
        · rintro e ⟨⟩ v hv
          exact hv
        · rintro e ⟨⟩
          simp only [Engine.hitL1, Bool.and_eq_true, beq_iff_eq] at hhit
          obtain ⟨⟨hvalid, huid⟩, -⟩ := hhit
          have hheld := hinv.lists _ hvalid
          rw [huid] at hheld
          exact ⟨huid, rfl, hheld⟩
    · refine hinv.setEval t ?_ ?_
      · rintro e ⟨⟩ v hv
        exact hv
      · rintro e ⟨⟩
        trivial

/-- The list is resolved from the store of the moment. -/
theorem ThreadsInv.resolve (hinv : ThreadsInv V σ) (he : σ.evals t = some e) :
    ThreadsInv V (σ.resolve t e) := by
  unfold Threads.resolve
  simp only
  split
  · exact hinv.setEval t nofun nofun
  · refine hinv.setEval t ?_ ?_
    · rintro e' ⟨⟩
      exact hinv.since t e he
    · rintro e' ⟨⟩
      have hheld : Held V σ.timeline σ.returned e.ctx.userId
          (policyResolveForUser (σ.timeline.state σ.timeline.last) e.ctx.userId 64) :=
        held_of_resolve hinv.returned
      rw [hinv.current] at hheld
      exact hheld

/-- Replacing the engine by one with the same decisions and rules, and a level 1
in which every list is held and no evaluation loses its slot. -/
theorem ThreadsInv.setLevel1 (hinv : ThreadsInv V σ) (hcache : eng.cache = σ.engine.cache)
    (hresult : eng.resultCache = σ.engine.resultCache)
    (hlists : ∀ i, (eng.resCache i).valid = true → Held V σ.timeline σ.returned
    (eng.resCache i).userId ((eng.resCache i).policies.take (eng.resCache i).count))
    (hevals : ∀ t e, σ.evals t = some e → PhaseOk V σ.timeline σ.returned eng e) :
    ThreadsInv V { σ with engine := eng } where
  __ := hinv
  rules := by
    unfold RulesFresh
    rw [hcache]
    exact hinv.rules
  lists := hlists
  decisions := by
    simp only [hresult]
    exact hinv.decisions
  evals := hevals

/-- Here a list that was overtaken by a call would get into the cache. -/
theorem ThreadsInv.writeL1 (hinv : ThreadsInv V σ)
    (he : σ.evals t = some e) (hphase : e.phase = .resolved ps)
    (hcond : Undisturbed σ (.writeL1 t)) : ThreadsInv V (σ.writeL1 t e ps) := by
  have hheld : Held V σ.timeline σ.returned e.ctx.userId ps := by
    have hp := hinv.evals t e he
    unfold PhaseOk at hp
    simpa only [hphase] using hp
  have hset : ThreadsInv V (σ.setEval t (some { e with phase := .listed ps })) :=
    hinv.setEval t (by rintro e' ⟨⟩; exact hinv.since t e he) (by rintro e' ⟨⟩; exact hheld)
  refine hset.setLevel1 (writeL1_cache ..) (writeL1_resultCache ..) ?_ ?_
  · intro i hi
    rcases writeL1_slot σ.engine e.ctx.userId e.now ps i with heq | ⟨-, -, huid, hlist⟩
    · rw [heq] at hi ⊢
      exact hinv.lists i hi
    · rw [huid, hlist]
      exact hheld
  · intro t' e' he'
    have hp := hset.evals t' e' he'
    rcases writeL1_slot σ.engine e.ctx.userId e.now ps (e'.ctx.userId % 128) with
      heq | ⟨hslot, hmiss, -⟩
    · exact hp.of_slot (by rw [heq]; rfl) (by rw [heq]; rfl) (by rw [heq]; rfl)
    · -- whoever shares the slot does not point into it
      cases hphase' : e'.phase with
      | hit count =>
        rcases update_eq_some he' with ⟨-, hnext⟩ | ⟨-, hold⟩
        · cases hnext
          cases hphase'
        · exact absurd hslot (hcond e he hmiss t' e' count hold hphase')
      | _ => exact hp.of_not_hit (by simp [hphase'])

/-- A fresh rule may be cached, since ids up to 256 have slots of their own. -/
theorem RulesFresh.cacheRule (hrules : RulesFresh V T done eng)
    (hids : ∀ k ≤ T.last, ∀ p ∈ (T.state k).policies, 0 < p.id ∧ p.id ≤ 256) {id : Nat}
    {c : Compiled} (hfresh : Fresh T done (ruleView V id) (some c)) :
    RulesFresh V T done (eng.cacheRule id c) := by
  have hread := hfresh
  obtain ⟨k, hk, hview, -⟩ := hread
  obtain ⟨q, hq, -⟩ := map_eq_some_iff.mp hview
  have hqid : q.id = id := by simpa using find?_some hq
  have hbound := hids k hk q (mem_of_find?_eq_some hq)
  have hfree : (eng.cache (id % 256)).policyId = 0 ∨ (eng.cache (id % 256)).policyId = id := by
    by_cases h0 : (eng.cache (id % 256)).policyId = 0
    · exact .inl h0
    · obtain ⟨hhome, hle, -⟩ := hrules _ h0
      omega
  intro i hi
  rcases cacheRule_slot hfree c i with heq | ⟨hhome, heq⟩
  · rw [heq] at hi ⊢
    exact hrules i hi
  · rw [heq]
    exact ⟨hhome, by simp only; omega, hfresh⟩

theorem held_of_policies (hinv : ThreadsInv V σ) (he : σ.evals t = some e)
    (hps : e.policies σ.engine = some ps) : Held V σ.timeline σ.returned e.ctx.userId ps := by
  have hp := hinv.evals t e he
  unfold Evaluation.policies at hps
  unfold PhaseOk at hp
  cases hphase : e.phase with
  | hit count =>
    simp only [hphase, some.injEq] at hps hp
    rw [← hps]
    exact hp.2.2
  | listed qs =>
    simp only [hphase, some.injEq] at hps hp
    rw [← hps]
    exact hp
  | _ => simp [hphase] at hps

/-- The loop runs on a held list. -/
theorem ThreadsInv.loop (hinv : ThreadsInv V σ) {h : Heap} (he : σ.evals t = some e)
    (hps : e.policies σ.engine = some ps) (hl : σ.loop V t h e ps = some σ') : ThreadsInv V σ' := by
  have hheld := held_of_policies hinv he hps
  have hpos : ∀ k ≤ σ.timeline.last, ∀ p ∈ (σ.timeline.state k).policies, 0 < p.id :=
    fun k hk p hp => (hinv.ids k hk p hp).1
  obtain ⟨⟨allowed, ctx', eng'⟩, hloop, rfl⟩ := map_eq_some_iff.mp hl
  have hset : ThreadsInv V
      (σ.setEval t (some { e with phase := .decided (ruled V σ.engine ps) allowed })) :=
    hinv.setEval t (by rintro e' ⟨⟩; exact hinv.since t e he)
      (by rintro e' ⟨⟩; exact setFresh_ruled hinv.rules hpos hheld)
  have hrules : RulesFresh V σ.timeline σ.returned eng' := by
    refine evalLoop_induct (P := RulesFresh V σ.timeline σ.returned) (fun g p hp c hc hg => ?_)
      hinv.rules hloop
    have hfresh := hheld.rules p hp
    rw [hc] at hfresh
    exact hg.cacheRule hinv.ids hfresh
  have hres : eng'.resCache = σ.engine.resCache := (sameResults_evalLoop hloop).resCache
  have hresult : eng'.resultCache = σ.engine.resultCache :=
    (sameResults_evalLoop hloop).resultCache
  exact { hset with
    rules := hrules
    lists := by
      simp only [hres]
      exact hinv.lists
    decisions := by
      simp only [hresult]
      exact hinv.decisions
    evals := by
      intro t' e' he'
      refine (hset.evals t' e' he').of_slot ?_ ?_ ?_
      · rw [hres]; rfl
      · rw [hres]; rfl
      · rw [hres]; rfl }

/-- The decision is cached with what it was made on. -/
theorem ThreadsInv.writeL2 (hinv : ThreadsInv V σ) (he : σ.evals t = some e)
    {allowed : Bool} (hphase : e.phase = .decided used allowed) :
    ThreadsInv V (σ.writeL2 t e used allowed) := by
  have hset : ThreadsInv V (σ.setEval t none) := hinv.setEval t nofun nofun
  have hused : SetFresh V σ.timeline σ.returned e.ctx.userId used := by
    have hp := hinv.evals t e he
    unfold PhaseOk at hp
    simpa only [hphase] using hp
  exact { hset with
    rules := hinv.rules
    lists := hinv.lists
    evals := hset.evals
    decisions := by
      intro i hi
      simp only [Threads.writeL2, Engine.writeL2] at hi ⊢
      by_cases hslot : i = (hashParams e.ctx).toNat % 1024
      · simp only [hslot, update_self]
        exact hused
      · simp only [update_of_ne hslot] at hi ⊢
        exact hinv.decisions i hi }

/-! ## §5 Sections of a management call -/

/-- What an evaluation holds stays held where held lists and fresh sets do. -/
theorem PhaseOk.map {T' : Timeline Store} {done' : List Nat} (hp : PhaseOk V T done eng e)
    (hheld : ∀ ps, Held V T done e.ctx.userId ps → Held V T' done' e.ctx.userId ps)
    (hset : ∀ used, SetFresh V T done e.ctx.userId used → SetFresh V T' done' e.ctx.userId used) :
    PhaseOk V T' done' eng e := by
  unfold PhaseOk at hp ⊢
  split
  · trivial
  · next count hphase =>
    simp only [hphase] at hp
    exact ⟨hp.1, hp.2.1, hheld _ hp.2.2⟩
  · next ps hphase => exact hheld ps (by simpa only [hphase] using hp)
  · next ps hphase => exact hheld ps (by simpa only [hphase] using hp)
  · next used _ hphase => exact hset used (by simpa only [hphase] using hp)

/-- No call hands out more than 256 policy ids. -/
theorem nextPid_le_of_write (hcov : m.concernsCovered s) (hw : m.storeWrite s = .ok s')
    (hle : s.nextPid ≤ 257) : s'.nextPid ≤ 257 := by
  cases m with
  | policyCreate name strategy effect priority rules =>
    obtain ⟨-, rfl⟩ := ok_of_else hw
    exact Nat.succ_le_succ hcov
  | userCreate | roleCreate | groupCreate =>
    obtain ⟨-, rfl⟩ := ok_of_else hw
    exact hle
  | userUpdate | userDelete | roleUpdate | roleDelete | groupUpdate | groupDelete | policyUpdate
  | policyDelete =>
    obtain ⟨-, rfl⟩ := ok_of_then hw
    exact hle
  | _ => cases hw; exact hle

/-- A management call writes the store; its invalidation is still to come. -/
theorem ThreadsInv.write (hinv : ThreadsInv V σ) (t : Nat) (hcov : m.concernsCovered σ.store) :
    ThreadsInv V (σ.write t m) := by
  unfold Threads.write
  split
  · exact hinv
  · next s' hw =>
    have hstore : StoreInv s' :=
      hinv.store.write (Mutation.wellNumbered_of_concernsCovered hinv.store hcov) hw
    have hnext : s'.nextPid ≤ 257 := nextPid_le_of_write hcov hw hinv.nextPid
    have hids' : ∀ p ∈ s'.policies, 0 < p.id ∧ p.id ≤ 256 := by
      intro p hp
      have hlt := hstore.policyIds p hp
      omega
    exact
      { current := σ.timeline.push_state_last s'
        store := hstore
        nextPid := hnext
        ids := by
          intro k hk p hp
          rcases Nat.lt_or_ge σ.timeline.last k with hlt | hge
          · have hk' : k = (σ.timeline.push s').last := by
              show k = σ.timeline.last + 1
              have hk'' : k ≤ σ.timeline.last + 1 := hk
              omega
            rw [hk', Timeline.push_state_last] at hp
            exact hids' p hp
          · rw [Timeline.push_state_of_le hge] at hp
            exact hinv.ids k hge p hp
        returned := fun v hv => Nat.le_succ_of_le (hinv.returned v hv)
        calls := by
          refine forall_update_some ?_ fun t' c hc => (hinv.calls t' c hc).push s'
          rintro c ⟨⟩
          refine callOk_of_write ?_ ?_ ?_ ?_
          · rw [hinv.current]; exact hinv.store
          · exact fun p hp => (hinv.ids _ (Nat.le_refl _) p hp).2
          · rw [hinv.current]; exact hcov
          · rw [hinv.current]; exact hw
        since := hinv.since
        rules := fun i hi =>
          ⟨(hinv.rules i hi).1, (hinv.rules i hi).2.1, (hinv.rules i hi).2.2.push hinv.returned s'⟩
        lists := fun i hi => (hinv.lists i hi).push hinv.returned s'
        decisions := fun i hi => (hinv.decisions i hi).push hinv.returned s'
        evals := fun t' e he => (hinv.evals t' e he).map (fun _ hh => hh.push hinv.returned s')
          fun _ hf => hf.push hinv.returned s' }

theorem apply_resCache_content (inv : Invalidation) (eng : Engine) (i : Nat) :
    ((inv.apply eng).resCache i).userId = (eng.resCache i).userId ∧
      ((inv.apply eng).resCache i).count = (eng.resCache i).count ∧
      ((inv.apply eng).resCache i).policies = (eng.resCache i).policies := by
  cases inv with
  | none | user | all => exact ⟨rfl, rfl, rfl⟩
  | policy pid =>
    have hdrop : (eng.dropRule pid).resCache = eng.resCache := by
      unfold Engine.dropRule
      split
      · rfl
      · split <;> rfl
    simp only [Invalidation.apply, Engine.invalidatePolicy, Engine.clearResults, hdrop]
    exact ⟨trivial, trivial, trivial⟩

/-- The invalidation, after which the call returns. -/
theorem ThreadsInv.invalidate (hinv : ThreadsInv V σ)
    (hc : σ.calls t = some c) (hcond : Undisturbed σ (.invalidate t)) :
    ThreadsInv V (σ.invalidate t c) := by
  have hcall := hinv.calls t c hc
  have hslot : ∀ pid, c.invalidation = .policy pid → pid ≠ 0 ∧
      ((σ.engine.cache (pid % 256)).policyId = 0 ∨
        (σ.engine.cache (pid % 256)).policyId = pid) := by
    intro pid hpid
    have hbound := hcall.policy pid hpid
    refine ⟨by omega, ?_⟩
    by_cases h0 : (σ.engine.cache (pid % 256)).policyId = 0
    · exact .inl h0
    · obtain ⟨hhome, hle, -⟩ := hinv.rules _ h0
      omega
  exact
    { current := hinv.current
      store := hinv.store
      nextPid := hinv.nextPid
      ids := hinv.ids
      returned := by
        intro v hv
        rcases mem_cons.mp hv with rfl | hv
        · exact hcall.le
        · exact hinv.returned v hv
      calls := forall_update_some nofun hinv.calls
      since := fun t' e he v hv => mem_cons_of_mem _ (hinv.since t' e he v hv)
      rules := by
        intro i hi
        obtain ⟨heq, hnot⟩ := apply_cache (fun i hi => (hinv.rules i hi).1) hslot hi
        simp only [Threads.invalidate, heq] at hi ⊢
        obtain ⟨hhome, hle, hfresh⟩ := hinv.rules i hi
        exact ⟨hhome, hle, hfresh.complete (hcall.rules _ hnot)⟩
      lists := by
        intro i hi
        obtain ⟨heq, hnot⟩ := apply_resCache hi
        simp only [Threads.invalidate, heq] at hi ⊢
        exact (hinv.lists i hi).complete hcall hnot
      decisions := by
        intro i hi
        obtain ⟨heq, hnot⟩ := apply_resultCache hi
        simp only [Threads.invalidate, heq] at hi ⊢
        exact (hinv.decisions i hi).complete hcall hnot
      evals := by
        intro t' e he
        obtain ⟨huid, hcount, hpols⟩ :=
          apply_resCache_content c.invalidation σ.engine (e.ctx.userId % 128)
        have hnot := hcond c hc t' e he
        exact ((hinv.evals t' e he).map (fun _ hh => hh.complete hcall hnot)
          fun _ hf => hf.complete hcall hnot).of_slot huid hcount hpols }

/-! ## §6 Interleavings -/

/-- What a section does, and what it presupposes. -/
inductive Threads.Moves (V : Vendor) (σ : Threads) : Section → Threads → Prop
  | lookup {t : Nat} {ctx : EvalContext} {now : UInt64} :
    Moves V σ (.lookup t ctx now) (σ.lookup t ctx now)
  | resolve {t : Nat} {e : Evaluation} (he : σ.evals t = some e) :
    Moves V σ (.resolve t) (σ.resolve t e)
  | writeL1 {t : Nat} {e : Evaluation} {ps : List Policy} (he : σ.evals t = some e)
    (hphase : e.phase = .resolved ps) : Moves V σ (.writeL1 t) (σ.writeL1 t e ps)
  | loop {t : Nat} {h : Heap} {e : Evaluation} {ps : List Policy} {σ' : Threads}
    (he : σ.evals t = some e) (hps : e.policies σ.engine = some ps)
    (hloop : σ.loop V t h e ps = some σ') : Moves V σ (.loop t h) σ'
  | writeL2 {t : Nat} {e : Evaluation} {used : List RuledPolicy} {allowed : Bool}
    (he : σ.evals t = some e) (hphase : e.phase = .decided used allowed) :
    Moves V σ (.writeL2 t) (σ.writeL2 t e used allowed)
  | write {t : Nat} {m : Mutation} : Moves V σ (.write t m) (σ.write t m)
  | invalidate {t : Nat} {c : PendingCall} (hc : σ.calls t = some c) :
    Moves V σ (.invalidate t) (σ.invalidate t c)

/-- The sections, one constructor for each. -/
theorem Threads.moves_of_step {sec : Section} (hs : σ.step V sec = some σ') :
    Threads.Moves V σ sec σ' := by
  unfold Threads.step at hs
  split at hs
  · -- lookup
    split at hs
    · cases hs
      exact .lookup
    · cases hs
  · -- resolve
    split at hs
    · next e he =>
      split at hs
      · cases hs
        exact .resolve he
      · cases hs
    · cases hs
  · -- writeL1
    split at hs
    · next e he =>
      split at hs
      · next ps hphase =>
        cases hs
        exact .writeL1 he hphase
      · cases hs
    · cases hs
  · -- loop
    split at hs
    · next e he =>
      split at hs
      · next ps hps => exact .loop he hps hs
      · cases hs
    · cases hs
  · -- writeL2
    split at hs
    · next e he =>
      split at hs
      · next used allowed hphase =>
        cases hs
        exact .writeL2 he hphase
      · cases hs
    · cases hs
  · -- write
    split at hs
    · cases hs
      exact .write
    · cases hs
  · -- invalidate
    split at hs
    · next c hc =>
      cases hs
      exact .invalidate hc
    · cases hs

/-- Every undisturbed section keeps the invariant. -/
theorem ThreadsInv.step (σ : Threads) (sec : Section) (σ' : Threads) (hinv : ThreadsInv V σ)
    (hcond : Undisturbed σ sec) (hs : σ.step V sec = some σ') : ThreadsInv V σ' := by
  cases Threads.moves_of_step hs with
  | lookup => exact hinv.lookup ..
  | resolve he => exact hinv.resolve he
  | writeL1 he hphase => exact hinv.writeL1 he hphase hcond
  | loop he hps hloop => exact hinv.loop he hps hloop
  | writeL2 he hphase => exact hinv.writeL2 he hphase
  | write => exact hinv.write _ hcond
  | invalidate hc => exact hinv.invalidate hc hcond

/-- In every state of an interleaving in which no invalidation overtakes an
evaluation it covers, what has returned is seen. -/
theorem freshState_of_undisturbed {V : Vendor} {secs : List Section} {σ : Threads}
    (hcond : Along (Threads.step V) Undisturbed secs .init)
    (hrun : interleave V secs = some σ) : FreshState V σ :=
  (invariant_of_run ThreadsInv.step (threadsInv_init V) hcond hrun).freshState

/-! ### An evaluation overtaken by a deletion -/

/-- A policy is created and assigned to user 1. -/
def grantSections : List Section :=
  [.write 0 (.policyCreate (lit "staff") .abac .allow 0 matchAllRules), .invalidate 0,
    .write 0 (.policyAssignTo 1 .user 1), .invalidate 0]

/-- User 1 is evaluated from the lookup to the cached decision. -/
def quietSections : List Section :=
  grantSections ++
    [.lookup 1 reportContext 0, .resolve 1, .writeL1 1, .loop 1 emptyHeap, .writeL2 1]

/-- The policy is deleted, and the deletion returns, between the resolution and
the filling of level 1. -/
def raceSections : List Section :=
  grantSections ++ [.lookup 1 reportContext 0, .resolve 1, .write 0 (.policyDelete 1),
    .invalidate 0, .writeL1 1]

theorem interleave_raceSections : ∃ σ, interleave matchAllVendor raceSections = some σ ∧
    σ.timeline.last = 3 ∧ σ.returned = [3, 2, 1] ∧ (σ.engine.resCache 1).valid = true ∧
    (σ.engine.resCache 1).userId = 1 ∧
    (σ.engine.resCache 1).policies.take (σ.engine.resCache 1).count = [matchAllPolicy] ∧
    (List.range 4).map (fun k => policyResolveForUser (σ.timeline.state k) 1 64) =
      [[], [], [matchAllPolicy], []] :=
  ⟨_, rfl, rfl, rfl, rfl, rfl, rfl, rfl⟩

/-- The list of the deleted policy is left behind in level 1. -/
theorem raceSections_leave_stale_list :
    ∃ σ, interleave matchAllVendor raceSections = some σ ∧ ¬ FreshState matchAllVendor σ := by
  obtain ⟨σ, hrun, hlast, hret, hvalid, huid, hlist, hviews⟩ := interleave_raceSections
  refine ⟨σ, hrun, fun hfresh => ?_⟩
  have hview : ∀ k, k ≤ 3 → policyResolveForUser (σ.timeline.state k) 1 64 =
      [[], [], [matchAllPolicy], []].getD k [] := by
    intro k hk
    rw [← hviews]
    simp [List.getD, getElem?_range (Nat.lt_succ_of_le hk)]
  obtain ⟨k, hk, hread, hkeeps⟩ := hfresh.lists 1 hvalid
  rw [huid, hlist] at hread
  rw [hlast] at hk
  have hread' : policyResolveForUser (σ.timeline.state k) 1 64 = [matchAllPolicy] :=
    some.inj hread
  have hk2 : k = 2 := by
    rw [hview k hk] at hread'
    interval_cases k
    · cases hread'
    · cases hread'
    · rfl
    · cases hread'
  subst hk2
  have hkeep :=
    hkeeps 3 (by rw [hret]; decide) (by decide) [matchAllPolicy] (by rw [huid]; exact hread)
  rw [huid] at hkeep
  have hafter : policyResolveForUser (σ.timeline.state 3) 1 64 = [matchAllPolicy] :=
    some.inj hkeep
  rw [hview 3 (by decide)] at hafter
  cases hafter

/-- With a single evaluation that did not hit level 1, nobody points into level 1. -/
theorem not_hit_of_alone (hevals : σ.evals = Function.update (fun _ => none) t (some e))
    (hnot : ∀ count, e.phase ≠ .hit count) {t' : Nat} {e' : Evaluation} (he' : σ.evals t' = some e')
    (count : Nat) : e'.phase ≠ .hit count := by
  rw [hevals] at he'
  rcases update_eq_some he' with ⟨-, ⟨⟩⟩ | ⟨-, ⟨⟩⟩
  exact hnot count

/-- A thread that runs alone disturbs nobody. -/
theorem undisturbed_writeL1_alone (hevals : σ.evals = Function.update (fun _ => none) t (some e))
    (hnot : ∀ count, e.phase ≠ .hit count) : Undisturbed σ (.writeL1 t) :=
  fun _ _ _ _ _ count he' hphase => absurd hphase (not_hit_of_alone hevals hnot he' count)

theorem undisturbed_quietSections :
    Along (Threads.step matchAllVendor) Undisturbed quietSections .init := by
  have hone : (1 : Nat) ≤ 256 := by decide
  refine .cons hone rfl <| .cons (fun _ _ _ _ he => nomatch he) rfl <| .cons rfl rfl <|
    .cons (fun _ _ _ _ he => nomatch he) rfl <| .cons trivial rfl <| .cons trivial rfl <|
    .cons ?_ rfl <| .cons trivial rfl <| .cons trivial rfl trivial
  exact undisturbed_writeL1_alone (update_idem ..) nofun

theorem quietSections_fresh : ∃ σ, interleave matchAllVendor quietSections = some σ ∧
    FreshState matchAllVendor σ := by
  have hrun : ∃ σ, interleave matchAllVendor quietSections = some σ := ⟨_, rfl⟩
  obtain ⟨σ, hσ⟩ := hrun
  exact ⟨σ, hσ, freshState_of_undisturbed undisturbed_quietSections hσ⟩

end SsoSystem
