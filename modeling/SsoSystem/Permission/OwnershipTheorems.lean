/-
SsoSystem.Permission.OwnershipTheorems — whose policies an evaluation applies.

An evaluation that hit level 1 goes on with a pointer into the slot after it
has given the lock back. The slot is shared by all users whose ids agree
modulo 128, and another user's evaluation may fill it before the loop reads
it. `ownPolicies_of_noForeignRefill` shows that this is the only way in which an
evaluation decides on policies of another user.
-/
import SsoSystem.Permission.InterleavingTheorems

namespace SsoSystem

open CMem Run Versions List Option Function

/-! ## §1 The property -/

/-- No evaluation has begun yet. -/
def Threads.on (s : Store) : Threads := { Threads.init with store := s, timeline := .start s }

variable (V : Vendor) (T : Timeline Store) (slot : ResultSlot) (origin : List RuledPolicy)

/-- The policy is among those that some version of the store resolves for the user. -/
def ResolvedFor (uid : Nat) (p : Policy) : Prop :=
  ∃ k ≤ T.last, p ∈ policyResolveForUser (T.state k) uid 64

/-- The policy loop over these policies, with these rules, comes to this decision. -/
def LoopDecides (ctx : EvalContext) (used : List RuledPolicy) (allowed : Bool) : Prop :=
  ∃ h s eng ps, used = ruled V eng ps ∧
    (evalLoop V h s ps false eng ctx).map Prod.fst = some allowed

/-- What an evaluation reads, holds or has decided on belongs to its user. -/
def OwnPhase (eng : Engine) (e : Evaluation) : Prop :=
  match e.phase with
  | .missed => True
  | .hit count => ∀ p ∈ eng.readL1 e.ctx.userId count, ResolvedFor T e.ctx.userId p
  | .resolved ps => ∀ p ∈ ps, ResolvedFor T e.ctx.userId p
  | .listed ps => ∀ p ∈ ps, ResolvedFor T e.ctx.userId p
  | .decided used allowed =>
    (∀ x ∈ used, ResolvedFor T e.ctx.userId x.1) ∧ LoopDecides V e.ctx used allowed

/-- A cached decision was computed from policies of its user. -/
def OwnDecision : Prop :=
  (∀ x ∈ origin, ResolvedFor T slot.userId x.1) ∧
    ∃ ctx, ctx.userId = slot.userId ∧ hashParams ctx = slot.paramsHash ∧
      LoopDecides V ctx origin slot.allowed

/-- Every evaluation applies policies of its own user. -/
structure OwnPolicies (V : Vendor) (σ : Threads) : Prop where
  evaluations : ∀ t e, σ.evals t = some e → OwnPhase V σ.timeline σ.engine e
  decisions : ∀ i, (σ.engine.resultCache i).valid = true →
    OwnDecision V σ.timeline (σ.engine.resultCache i) (σ.origin i)

/-- The user a section evaluates. -/
def Section.user (σ : Threads) : Section → Option Nat
  | .lookup _ ctx _ => some ctx.userId
  | .resolve t | .writeL1 t | .loop t _ | .writeL2 t => (σ.evals t).map fun e => e.ctx.userId
  | .write _ _ | .invalidate _ => none

/-- The section changes no list that an evaluation of another user is reading. -/
def KeepsLists (σ : Threads) (sec : Section) : Prop :=
  ∀ σ', σ.step V sec = some σ' → ∀ t e count, σ.evals t = some e → e.phase = .hit count →
    sec.user σ ≠ some e.ctx.userId →
      σ'.engine.readL1 e.ctx.userId count = σ.engine.readL1 e.ctx.userId count

/-- No level 1 slot is filled for one user while an evaluation of another points into it. -/
def NoForeignRefill (σ : Threads) : Section → Prop
  | .writeL1 t => ∀ e, σ.evals t = some e → σ.engine.hitL1 e.ctx.userId e.now = false →
      ∀ t' e' count, σ.evals t' = some e' → e'.phase = .hit count →
        e'.ctx.userId % 128 = e.ctx.userId % 128 → e'.ctx.userId = e.ctx.userId
  | _ => True

/-! ## §2 The invariant -/

variable {T : Timeline Store} {uid t : Nat} {p : Policy} {V : Vendor} {eng : Engine}
  {e : Evaluation} {σ : Threads}

/-- What was resolved for a user once stays so. -/
theorem ResolvedFor.push (hp : ResolvedFor T uid p) (s : Store) : ResolvedFor (T.push s) uid p := by
  obtain ⟨k, hk, hmem⟩ := hp
  refine ⟨k, Nat.le_succ_of_le hk, ?_⟩
  rw [Timeline.push_state_of_le hk]
  exact hmem

theorem OwnPhase.push (he : OwnPhase V T eng e) (s : Store) : OwnPhase V (T.push s) eng e := by
  unfold OwnPhase at he ⊢
  cases hphase : e.phase with
  | missed => trivial
  | hit | resolved | listed =>
    rw [hphase] at he
    exact fun p hp => (he p hp).push s
  | decided used allowed =>
    rw [hphase] at he
    exact ⟨fun x hx => (he.1 x hx).push s, he.2⟩

variable {eng' : Engine} {ps : List Policy}

/-- A change of the engine matters to an evaluation only if it is reading a cached list. -/
theorem OwnPhase.of_engine (he : OwnPhase V T eng e)
    (hread : ∀ count, e.phase = .hit count → ∀ p ∈ eng'.readL1 e.ctx.userId count, p ∈
      eng.readL1 e.ctx.userId count ∨ ResolvedFor T e.ctx.userId p) :
    OwnPhase V T eng' e := by
  unfold OwnPhase at he ⊢
  cases hphase : e.phase with
  | missed => trivial
  | hit count =>
    rw [hphase] at he
    intro p hp
    rcases hread count hphase p hp with hold | hnew
    · exact he p hold
    · exact hnew
  | resolved | listed | decided => rwa [hphase] at he

structure OwnInv (V : Vendor) (σ : Threads) : Prop extends OwnPolicies V σ where
  current : σ.timeline.state σ.timeline.last = σ.store
  slots : ∀ i, ∀ p ∈ (σ.engine.resCache i).policies.take (σ.engine.resCache i).count,
    ResolvedFor σ.timeline (σ.engine.resCache i).userId p

/-- The invariant at the start. -/
theorem ownInv_on (V : Vendor) (s : Store) : OwnInv V (.on s) where
  evaluations _ _ he := nomatch he
  decisions _ hv := nomatch hv
  current := rfl
  slots _ _ hp := nomatch hp

/-- The store of the moment is one of the stores so far. -/
theorem OwnInv.resolvedFor (hinv : OwnInv V σ) (hp : p ∈ policyResolveForUser σ.store uid 64) :
    ResolvedFor σ.timeline uid p := by
  refine ⟨σ.timeline.last, Nat.le_refl _, ?_⟩
  rw [hinv.current]
  exact hp

/-- A thread moves on and the engine stays. -/
theorem OwnInv.setEval (hinv : OwnInv V σ) (t : Nat) {next : Option Evaluation}
    (hphase : ∀ e, next = some e → OwnPhase V σ.timeline σ.engine e) :
    OwnInv V (σ.setEval t next) where
  evaluations := forall_update_some hphase hinv.evaluations
  __ := hinv

/-- The engine changes, neither in its lists nor by a new decision. -/
theorem OwnInv.setEngine (hinv : OwnInv V σ)
    (hlists : ∀ i, (eng.resCache i).userId = (σ.engine.resCache i).userId ∧ (eng.resCache i).count =
    (σ.engine.resCache i).count ∧ (eng.resCache i).policies = (σ.engine.resCache i).policies)
    (hdecisions : ∀ i, (eng.resultCache i).valid = true → eng.resultCache i =
      σ.engine.resultCache i) :
    OwnInv V { σ with engine := eng } where
  evaluations t e he := by
    refine (hinv.evaluations t e he).of_engine fun count _ p hp => .inl ?_
    unfold Engine.readL1 at hp ⊢
    rwa [(hlists _).2.2] at hp
  decisions i hv := by
    have heq := hdecisions i hv
    show OwnDecision V σ.timeline (eng.resultCache i) (σ.origin i)
    rw [heq] at hv ⊢
    exact hinv.decisions i hv
  current := hinv.current
  slots i p hp := by
    obtain ⟨huid, hcount, hpols⟩ := hlists i
    show ResolvedFor σ.timeline (eng.resCache i).userId p
    rw [huid]
    refine hinv.slots i p ?_
    rwa [hcount, hpols] at hp

/-! ## §3 Sections -/

/-- A hit starts reading a list of its own user. -/
theorem OwnInv.lookup (hinv : OwnInv V σ) (t : Nat) (ctx : EvalContext) (now : UInt64) :
    OwnInv V (σ.lookup t ctx now) := by
  unfold Threads.lookup
  cases σ.engine.lookupL2 ctx.userId (hashParams ctx) now with
  | some allowed => exact hinv
  | none =>
    by_cases hhit : σ.engine.hitL1 ctx.userId now = true
    · rw [if_pos hhit]
      by_cases hcount : (σ.engine.resCache (ctx.userId % 128)).count = 0
      · rw [if_pos hcount]
        exact hinv
      · rw [if_neg hcount]
        refine hinv.setEval t fun e he => ?_
        cases he
        -- the slot is marked with this user
        have huid : (σ.engine.resCache (ctx.userId % 128)).userId = ctx.userId := by
          simp only [Engine.hitL1, Bool.and_eq_true, beq_iff_eq] at hhit
          exact hhit.1.2
        have hslot := hinv.slots (ctx.userId % 128)
        rw [huid] at hslot
        exact hslot
    · rw [if_neg hhit]
      refine hinv.setEval t fun e he => ?_
      cases he
      trivial

/-- A miss resolves from the store of the moment. -/
theorem OwnInv.resolve (hinv : OwnInv V σ) : OwnInv V (σ.resolve t e) := by
  refine hinv.setEval t fun e' he' => ?_
  split at he'
  · cases he'
  · cases he'
    exact fun p hp => hinv.resolvedFor hp

/-- What a pointer into a refilled slot may read: the new policies, and old ones behind them. -/
theorem mem_readL1_writeL1 {count : Nat} {now : UInt64}
    (hp : p ∈ (eng.writeL1 uid now ps).readL1 uid count) : p ∈ eng.readL1 uid count ∨ p ∈ ps := by
  unfold Engine.writeL1 at hp
  split at hp
  · exact .inl hp
  · simp only [Engine.readL1, update_self] at hp ⊢
    rw [take_append] at hp
    rcases mem_append.mp hp with hnew | hold
    · exact .inr (mem_of_mem_take hnew)
    · left
      rw [← drop_take] at hold
      exact mem_of_mem_drop hold

/-- The write that can go wrong: the slot may be another user's who is being read. -/
theorem OwnInv.writeL1 (hinv : OwnInv V σ)
    (hcond : NoForeignRefill σ (.writeL1 t)) (he : σ.evals t = some e)
    (hphase : e.phase = .resolved ps) : OwnInv V (σ.writeL1 t e ps) := by
  have hown : ∀ p ∈ ps, ResolvedFor σ.timeline e.ctx.userId p := by
    have hold := hinv.evaluations t e he
    unfold OwnPhase at hold
    rwa [hphase] at hold
  have hmoved : OwnInv V (σ.setEval t (some { e with phase := .listed ps })) :=
    hinv.setEval t fun e' he' => by
      cases he'
      exact hown
  refine { hmoved with evaluations := ?_, decisions := ?_, slots := ?_ }
  · intro t' e' he'
    refine (hmoved.evaluations t' e' he').of_engine fun count hcount p hp => ?_
    rcases writeL1_slot σ.engine e.ctx.userId e.now ps (e'.ctx.userId % 128) with
      heq | ⟨hslot, hmiss, -⟩
    · left
      simp only [Threads.writeL1, Engine.readL1, heq] at hp
      exact hp
    · rcases update_eq_some he' with ⟨-, hnext⟩ | ⟨-, hold⟩
      · cases hnext
        cases hcount
      · -- the slot it points into is refilled for its own user
        have huid := hcond e he hmiss t' e' count hold hcount hslot
        rw [huid] at hp ⊢
        exact (mem_readL1_writeL1 hp).imp id (hown p)
  · simp only [Threads.writeL1, writeL1_resultCache]
    exact hinv.decisions
  · intro i p hp
    simp only [Threads.writeL1] at hp ⊢
    rcases writeL1_slot σ.engine e.ctx.userId e.now ps i with heq | ⟨-, -, huid, hlist⟩
    · rw [heq] at hp ⊢
      exact hinv.slots i p hp
    · rw [huid]
      exact hown p (hlist ▸ hp)

/-- A loop over own policies makes an own decision. -/
theorem OwnInv.loop {σ' : Threads} (hinv : OwnInv V σ) {h : Heap}
    (he : σ.evals t = some e) (hps : e.policies σ.engine = some ps)
    (hloop : σ.loop V t h e ps = some σ') : OwnInv V σ' := by
  obtain ⟨⟨allowed, ctx', eng⟩, heval, rfl⟩ := map_eq_some_iff.mp hloop
  have hown : ∀ p ∈ ps, ResolvedFor σ.timeline e.ctx.userId p := by
    have hold := hinv.evaluations t e he
    unfold OwnPhase at hold
    unfold Evaluation.policies at hps
    split at hps
    · next hphase =>
      cases hps
      rwa [hphase] at hold
    · next hphase =>
      cases hps
      rwa [hphase] at hold
    · cases hps
  have hsame := sameResults_evalLoop heval
  have hmoved : OwnInv V
      (σ.setEval t (some { e with phase := .decided (ruled V σ.engine ps) allowed })) := by
    refine hinv.setEval t fun e' he' => ?_
    cases he'
    refine ⟨fun x hx => ?_, h, σ.store, σ.engine, ps, rfl, ?_⟩
    · obtain ⟨p, hp, rfl⟩ := mem_map.mp hx
      exact hown p hp
    · rw [heval]
      rfl
  refine hmoved.setEngine (fun i => ?_) fun i _ => ?_
  · show (eng.resCache i).userId = (σ.engine.resCache i).userId ∧ _
    rw [hsame.resCache]
    exact ⟨rfl, rfl, rfl⟩
  · exact congrFun hsame.resultCache i

/-- The decision is cached under the user it was made for. -/
theorem OwnInv.writeL2 (hinv : OwnInv V σ) {used : List RuledPolicy} {allowed : Bool}
    (he : σ.evals t = some e) (hphase : e.phase = .decided used allowed) :
    OwnInv V (σ.writeL2 t e used allowed) := by
  have hown := hinv.evaluations t e he
  unfold OwnPhase at hown
  rw [hphase] at hown
  have hmoved : OwnInv V (σ.setEval t none) := hinv.setEval t fun _ he' => nomatch he'
  refine { hmoved with evaluations := ?_, decisions := ?_ }
  · intro t' e' he'
    exact (hmoved.evaluations t' e' he').of_engine fun _ _ _ hp => .inl hp
  · intro i hv
    simp only [Threads.writeL2, Engine.writeL2] at hv ⊢
    by_cases hi : i = (hashParams e.ctx).toNat % 1024
    · rw [hi, update_self, update_self]
      refine ⟨hown.1, e.ctx, rfl, ?_, hown.2⟩
      dsimp only
    · rw [update_of_ne hi] at hv
      rw [update_of_ne hi, update_of_ne hi]
      exact hinv.decisions i hv

/-- A new store is added to the stores so far. -/
theorem OwnInv.write (hinv : OwnInv V σ) (t : Nat) (m : Mutation) : OwnInv V (σ.write t m) := by
  unfold Threads.write
  cases m.storeWrite σ.store with
  | error err => exact hinv
  | ok s =>
    exact
      { evaluations := fun t' e he => (hinv.evaluations t' e he).push s
        decisions := fun i hv => by
          obtain ⟨hown, hcomputed⟩ := hinv.decisions i hv
          exact ⟨fun x hx => (hown x hx).push s, hcomputed⟩
        current := Timeline.push_state_last _ _
        slots := fun i p hp => (hinv.slots i p hp).push s }

/-- Invalidating only drops entries. -/
theorem OwnInv.invalidate (hinv : OwnInv V σ) (t : Nat)
    (c : PendingCall) : OwnInv V (σ.invalidate t c) := by
  have heng : OwnInv V { σ with engine := c.invalidation.apply σ.engine } :=
    hinv.setEngine (apply_resCache_content c.invalidation σ.engine) fun i hv =>
      (apply_resultCache hv).1
  exact { heng with }

/-- Every section keeps the invariant. -/
theorem OwnInv.step (σ : Threads) (sec : Section) (σ' : Threads) (hinv : OwnInv V σ)
    (hcond : NoForeignRefill σ sec) (hstep : σ.step V sec = some σ') : OwnInv V σ' := by
  cases Threads.moves_of_step hstep with
  | lookup => exact hinv.lookup ..
  | resolve => exact hinv.resolve
  | writeL1 he hphase => exact hinv.writeL1 hcond he hphase
  | loop he hps hloop => exact hinv.loop he hps hloop
  | writeL2 he hphase => exact hinv.writeL2 he hphase
  | write => exact hinv.write ..
  | invalidate => exact hinv.invalidate ..

/-! ## §4 Lists that are being read -/

/-- A reader sees nothing but its slot. -/
theorem readL1_congr (uid count : Nat)
    (hpolicies : (eng'.resCache (uid % 128)).policies = (eng.resCache (uid % 128)).policies) :
    eng'.readL1 uid count = eng.readL1 uid count := by
  unfold Engine.readL1
  rw [hpolicies]

theorem engine_lookup (σ : Threads) (t : Nat) (ctx : EvalContext) (now : UInt64) :
    (σ.lookup t ctx now).engine = σ.engine := by
  unfold Threads.lookup
  cases σ.engine.lookupL2 ctx.userId (hashParams ctx) now with
  | some allowed => rfl
  | none =>
    simp only
    split
    · split
      · rfl
      · rfl
    · rfl

theorem engine_write (σ : Threads) (t : Nat) (m : Mutation) : (σ.write t m).engine = σ.engine := by
  unfold Threads.write
  cases m.storeWrite σ.store with
  | error err => rfl
  | ok s => rfl

/-- Without a foreign refill, no list changes under its reader. -/
theorem keepsLists_of_noForeignRefill {sec : Section} (hcond : NoForeignRefill σ sec) :
    KeepsLists V σ sec := by
  intro σ' hstep t e count he hphase huser
  cases Threads.moves_of_step hstep with
  | lookup => rw [engine_lookup]
  | resolve => rfl
  | @writeL1 t' e' ps he' hphase' =>
    show (σ.engine.writeL1 e'.ctx.userId e'.now ps).readL1 e.ctx.userId count = _
    rcases writeL1_slot σ.engine e'.ctx.userId e'.now ps (e.ctx.userId % 128) with
      heq | ⟨hslot, hmiss, -⟩
    · exact readL1_congr _ _ (congrArg _ heq)
    · refine absurd ?_ huser
      simp only [Section.user, he', map_some, hcond e' he' hmiss t e count he hphase hslot]
  | loop he' hps hloop =>
    obtain ⟨⟨allowed, ctx', eng⟩, heval, rfl⟩ := map_eq_some_iff.mp hloop
    exact readL1_congr _ _ (by rw [(sameResults_evalLoop heval).resCache])
  | writeL2 => rfl
  | write => rw [engine_write]
  | @invalidate t' c hc =>
    exact readL1_congr _ _ (apply_resCache_content c.invalidation σ.engine _).2.2

/-! ## §5 Interleavings -/

/-- In every interleaving without such a refill, each evaluation applies policies of its own
user, and no other user changes the list it reads. -/
theorem ownPolicies_of_noForeignRefill {V : Vendor} {s : Store} {secs : List Section} {σ : Threads}
    (hcond : Along (Threads.step V) NoForeignRefill secs (.on s))
    (hrun : run (Threads.step V) secs (.on s) = some σ) :
    OwnPolicies V σ ∧ Along (Threads.step V) (KeepsLists V) secs (.on s) := by
  refine ⟨(invariant_of_run OwnInv.step (ownInv_on V s) hcond hrun).toOwnPolicies, ?_⟩
  exact hcond.mono fun σ sec => keepsLists_of_noForeignRefill

/-- Two users with one level 1 slot; the first has a policy that denies everything, the
second one that allows everything. -/
def sharedSlotStore : Store :=
  { memOpen with
    users := [sampleUser, { sampleUser with id := 129 }]
    policies := [matchAllPolicy, denyAllPolicy]
    policyAssignments := [⟨2, .user, 1⟩, ⟨1, .user, 129⟩] }

/-- A request of a user for a function. -/
def functionContext (code : String) (uid : Nat) : EvalContext :=
  (CheckRequest.function (lit code)).context { sampleUser with id := uid }

/-- Two evaluations of user 1, the second one from level 1. -/
def ownSlotSections : List Section :=
  [.lookup 1 (functionContext "read" 1) 0, .resolve 1, .writeL1 1,
    .lookup 2 (functionContext "write" 1) 0, .loop 2 emptyHeap, .writeL2 2]

/-- A thread that runs alone disturbs nobody. -/
theorem noForeignRefill_writeL1_alone
    (hevals : σ.evals = Function.update (fun _ => none) t (some e))
    (hnot : ∀ count, e.phase ≠ .hit count) : NoForeignRefill σ (.writeL1 t) :=
  fun _ _ _ _ _ count he' hphase => absurd hphase (not_hit_of_alone hevals hnot he' count)

theorem ownSlotSections_own : ∃ σ,
    run (Threads.step matchAllVendor) ownSlotSections (.on sharedSlotStore) = some σ ∧
      OwnPolicies matchAllVendor σ ∧
      Along (Threads.step matchAllVendor) (KeepsLists matchAllVendor) ownSlotSections
        (.on sharedSlotStore) := by
  have hcond : Along (Threads.step matchAllVendor) NoForeignRefill ownSlotSections
      (.on sharedSlotStore) := by
    refine .cons trivial rfl <| .cons trivial rfl <| .cons ?_ rfl <| .cons trivial rfl <|
      .cons trivial rfl <| .cons trivial rfl trivial
    exact noForeignRefill_writeL1_alone (update_idem ..) nofun
  obtain ⟨σ, hrun⟩ : ∃ σ,
      run (Threads.step matchAllVendor) ownSlotSections (.on sharedSlotStore) = some σ := ⟨_, rfl⟩
  exact ⟨σ, hrun, ownPolicies_of_noForeignRefill hcond hrun⟩

/-- User 129 fills the slot between the second lookup of user 1 and its loop. -/
def sharedSlotSections : List Section :=
  [.lookup 1 (functionContext "read" 1) 0, .resolve 1, .writeL1 1, .loop 1 emptyHeap, .writeL2 1,
    .lookup 1 (functionContext "write" 1) 0, .lookup 2 (functionContext "read" 129) 0, .resolve 2,
    .writeL1 2, .loop 1 emptyHeap, .writeL2 1]

/-- User 1, who may do nothing, is allowed by the policy of user 129, and the decision is
cached. -/
theorem sharedSlotSections_foreign : ∃ σ,
    run (Threads.step matchAllVendor) sharedSlotSections (.on sharedSlotStore) = some σ ∧
      ¬ OwnPolicies matchAllVendor σ := by
  refine exists_some_of_any (P := fun σ => (σ.engine.resultCache 848).valid = true ∧
    (σ.engine.resultCache 848).userId = 1 ∧ (σ.origin 848).map Prod.fst = [matchAllPolicy] ∧
    σ.timeline.last = 0 ∧ policyResolveForUser (σ.timeline.state 0) 1 64 = [denyAllPolicy])
    (by decide +kernel) ?_
  rintro σ - ⟨hvalid, huid, horigin, hlast, hresolved⟩ hown
  have hmem : matchAllPolicy ∈ (σ.origin 848).map Prod.fst := by
    rw [horigin]
    exact mem_singleton_self _
  obtain ⟨x, hx, hx1⟩ := mem_map.mp hmem
  obtain ⟨k, hk, hres⟩ := (hown.decisions 848 hvalid).1 x hx
  have hk0 : k = 0 := by omega
  rw [hk0, huid, hresolved, hx1] at hres
  exact absurd hres (by decide)

end SsoSystem
