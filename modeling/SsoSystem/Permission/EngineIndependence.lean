/-
SsoSystem.Permission.EngineIndependence — when a context of a process behaves
as if it were alone.

The run of a process is compared with the run of the calls on one context
only (`Process.Alone`). The own calls keep the two related because a check
sees the statics only through the role question and the audit line; the calls
on other contexts keep them related because they leave the context and its
outcomes and, unless they write an entry, the HMAC chain.
-/
import SsoSystem.Permission.DecisionTheorems
import SsoSystem.Permission.Engines

namespace SsoSystem

open CMem List Option Function

/-! ## §1 The role store -/

section RoleStore

variable {V : Vendor} {h : Heap} {s s' : Store} {ctx : EvalContext}

theorem evaluatePolicy_store_congr
    (hrole : userHasRole s ctx.userId = userHasRole s' ctx.userId) (eng : Engine) (p : Policy) :
    evaluatePolicy V h s eng p ctx = evaluatePolicy V h s' eng p ctx := by
  unfold evaluatePolicy strategyEvaluate
  simp only [evaluateCompiled_store_congr hrole]

variable {eng : Engine}

theorem userId_of_evaluatePolicy {eng' : Engine} {p : Policy} {ctx' : EvalContext}
    {r : StrategyResult} (he : evaluatePolicy V h s eng p ctx = some (r, ctx', eng')) :
    ctx'.userId = ctx.userId := by
  rcases evaluatePolicy_filter he with rfl | ⟨-, _, rfl⟩
  · rfl
  · rfl

/-- The policy loop asks the store only which roles the user has. -/
theorem evalLoop_store_congr (ps : List Policy) {any : Bool}
    (hrole : userHasRole s ctx.userId = userHasRole s' ctx.userId) :
    evalLoop V h s ps any eng ctx = evalLoop V h s' ps any eng ctx := by
  induction ps generalizing any eng ctx with
  | nil => rfl
  | cons p ps ih =>
    unfold evalLoop
    rw [← evaluatePolicy_store_congr hrole eng p]
    cases he : evaluatePolicy V h s eng p ctx with
    | none => rfl
    | some out =>
      obtain ⟨⟨err, allowed⟩, ctx', eng'⟩ := out
      have hrole' : userHasRole s ctx'.userId = userHasRole s' ctx'.userId := by
        rw [userId_of_evaluatePolicy he]
        exact hrole
      cases err <;> cases allowed <;> first | rfl | exact ih hrole'

variable {now : UInt64}

theorem evaluateShared_store_congr {own : Store}
    (hrole : userHasRole s ctx.userId = userHasRole s' ctx.userId) :
    evaluateShared V h s own eng now ctx = evaluateShared V h s' own eng now ctx := by
  have hdecide : ∀ eng ps, decideOn V h s eng now ctx ps = decideOn V h s' eng now ctx ps := by
    intro eng ps
    unfold decideOn
    rw [evalLoop_store_congr ps hrole]
  unfold evaluateShared
  simp only [hdecide]

end RoleStore

/-! ## §2 The audit line -/

namespace AuditLog

variable {a : AuditLog} {m : AuditMoment}

/-- The statics an entry leaves, apart from those of the rotation. -/
structure Wrote (hmac : Bytes → Bytes → Bytes) (a a' : AuditLog) (payload : Bytes) : Prop where
  path : a'.path = a.path
  secret : a'.secret = a.secret
  file : a'.file = some a.path
  hmacPrev : a'.hmacPrev = if a.secret = [] then a.hmacPrev else hmac a.secret
    (a.hmacPrev ++ payload)

/-- The line of an entry. -/
def lineOf (hmac : Bytes → Bytes → Bytes) (path secret hmacPrev payload : Bytes) : AuditLine where
  file := path
  text :=
    if secret = [] then payload ++ lit "\x7d\n"
    else payload ++ lit ",\"signature\":\"" ++ (hmac secret (hmacPrev ++ payload)).flatMap
      hexByte ++
      lit "\"\x7d\n"

/-- With a file that can be opened, an entry goes to the audit path unless a file at another
path is open. -/
theorem logDecision_spec (hmac : Bytes → Bytes → Bytes) (hopen : m.openOk = true)
    (hfile : a.file = none ∨ a.file = some a.path)
    (userId : Nat) (allowed hit : Bool) : ∃ a',
    a.logDecision hmac m userId allowed hit =
      (a', some (lineOf hmac a.path a.secret a.hmacPrev (payload m userId allowed hit))) ∧
    Wrote hmac a a' (payload m userId allowed hit) := by
  obtain ⟨hpath, hsecret, hprev, hrot⟩ := rotate_spec a m
  have hopened : ((a.rotate m).openFile m).file = some a.path := by
    have hcases : (a.rotate m).file = none ∨ (a.rotate m).file = some a.path := by
      rcases hrot with hrot | hrot
      · rw [hrot]
        exact hfile
      · exact .inl hrot
    rcases hcases with hnone | hsome
    · simp [openFile, hnone, hopen, hpath]
    · simp [openFile, hsome]
  have hsec : ((a.rotate m).openFile m).secret = a.secret := hsecret
  have hp : ((a.rotate m).openFile m).hmacPrev = a.hmacPrev := hprev
  by_cases hs : a.secret = []
  · refine ⟨(a.rotate m).openFile m, ?_, hpath, hsecret, hopened, ?_⟩
    · simp [logDecision, hopened, writeEntry, hsec, hs, lineOf]
    · rw [if_pos hs]
      exact hprev
  · refine ⟨{ (a.rotate m).openFile m with
      hmacPrev := hmac a.secret (a.hmacPrev ++ payload m userId allowed hit) }, ?_, hpath, hsecret,
        hopened, ?_⟩
    · simp [logDecision, hopened, writeEntry, hsec, hs, lineOf, hp]
    · rw [if_neg hs]

end AuditLog

/-! ## §3 One context alone -/

namespace Process

variable {V : Vendor} {h : Heap} {hmac : Bytes → Bytes → Bytes} {i : Nat} {p p' q : Process}

/-- No other context has written an audit entry. -/
def OnlyWriter (p : Process) (i : Nat) : Prop := ∀ o ∈ p.outcomes, o.1 ≠ i → o.2.line = none

/-- `q` is the process in which only the calls on context `i` were made. -/
structure Alone (i : Nat) (p q : Process) : Prop where
  context : p.contexts i = q.contexts i
  outcomes : p.outcomesOf i = q.outcomesOf i
  unused : q.contexts i = none → q.audit = .initial
  rbac : ∀ own, q.contexts i = some own → q.rbacUserdata = some i
  path : ∀ own, q.contexts i = some own → q.audit.path = ownPath own.audit
  secret : ∀ own, q.contexts i = some own → q.audit.secret = strlcpy 128 own.audit.secret
  file : q.audit.file = none ∨ q.audit.file = some q.audit.path
  chain : p.OnlyWriter i → p.audit.hmacPrev = q.audit.hmacPrev

theorem alone_start (i : Nat) : Alone i start start where
  context := rfl
  outcomes := rfl
  unused := fun _ => rfl
  rbac := by nofun
  path := by nofun
  secret := by nofun
  file := .inl rfl
  chain := fun _ => rfl

/-- A process changed only in other contexts, in statics the lone context does not see, and
in outcomes of others. -/
theorem Alone.of_other (halone : Alone i p q) (hctx : p'.contexts i = p.contexts i)
    (hout : p'.outcomesOf i = p.outcomesOf i)
    (hchain : p'.OnlyWriter i → p.OnlyWriter i ∧ p'.audit.hmacPrev = p.audit.hmacPrev) :
    Alone i p' q where
  context := hctx.trans halone.context
  outcomes := hout.trans halone.outcomes
  __ := halone
  chain := fun hw => (hchain hw).2.trans (halone.chain (hchain hw).1)

theorem outcomesOf_cons {o : Nat × CheckOutcome} (hout : p'.outcomes = o :: p.outcomes) (i : Nat) :
    p'.outcomesOf i = if o.1 = i then o.2 :: p.outcomesOf i else p.outcomesOf i := by
  by_cases ho : o.1 = i
  · simp [outcomesOf, hout, ho]
  · simp [outcomesOf, hout, ho]

/-- A check made by two processes on the same context, where the role strategies agree on
the user and the audit statics match: the outcomes are equal, and either no entry was
written or both wrote one with the same payload. -/
theorem check_congr {own : EngineContext} {uid : Nat} {req : CheckRequest}
    {moment : AuditMoment} (hopen : moment.openOk = true)
    (hroles : userHasRole (p.roleStore own) uid = userHasRole (q.roleStore own) uid)
    (hpath : p.audit.path = q.audit.path) (hsecret : p.audit.secret = q.audit.secret)
    (hfp : p.audit.file = none ∨ p.audit.file = some p.audit.path)
    (hfq : q.audit.file = none ∨ q.audit.file = some q.audit.path)
    (hprev : p.audit.secret ≠ [] → p.audit.hmacPrev = q.audit.hmacPrev)
    {r : CheckOutcome × Engine × AuditLog} (hr : p.check V h hmac own now uid req moment = some r) :
    ∃ audit, q.check V h hmac own now uid req moment = some (r.1, r.2.1, audit) ∧
      (r.1.line = none ∧ r.2.2 = p.audit ∧ audit = q.audit ∨
        r.1.line ≠ none ∧ ∃ payload, AuditLog.Wrote hmac p.audit r.2.2 payload ∧
          AuditLog.Wrote hmac q.audit audit payload) := by
  unfold check at hr ⊢
  cases huser : own.sys.store.userGetById uid with
  | none =>
    simp only [huser] at hr ⊢
    cases hr
    exact ⟨_, rfl, .inl ⟨rfl, rfl, rfl⟩⟩
  | some user =>
    simp only [huser] at hr ⊢
    have hshared : evaluateShared V (req.heap h) (p.roleStore own) own.sys.store own.sys.engine now
          (req.context user) =
        evaluateShared V (req.heap h) (q.roleStore own) own.sys.store own.sys.engine now
          (req.context user) := by
      refine evaluateShared_store_congr ?_
      change userHasRole _ user.id = userHasRole _ user.id
      rw [Store.userGetById_id huser]
      exact hroles
    rw [hshared] at hr
    split at hr
    · cases hr
    · next allowed ctx engine heval =>
      obtain ⟨u, hdestroy, rfl⟩ := map_eq_some_iff.mp hr
      obtain ⟨ap, hap, hwp⟩ := AuditLog.logDecision_spec hmac hopen hfp user.id allowed
        (cacheHit own.sys.engine now (req.context user))
      obtain ⟨aq, haq, hwq⟩ := AuditLog.logDecision_spec hmac hopen hfq user.id allowed
        (cacheHit own.sys.engine now (req.context user))
      -- the two lines are equal: without a secret the chain is not looked at
      have hline : ∀ payload, AuditLog.lineOf hmac p.audit.path p.audit.secret p.audit.hmacPrev
        payload =
          AuditLog.lineOf hmac q.audit.path q.audit.secret q.audit.hmacPrev payload := by
        intro payload
        unfold AuditLog.lineOf
        rw [hpath, ← hsecret]
        split
        · rfl
        · next hne => rw [hprev hne]
      refine ⟨aq, ?_, .inr ⟨?_, _, ?_, hwq⟩⟩
      · simp only [hdestroy, map_some, hap, haq, hline]
      · rw [hap]
        nofun
      · rw [hap]
        exact hwp

/-- The statics after an own check, where the two processes wrote the same. -/
theorem hmacPrev_of_wrote {a a' b b' : AuditLog} {payload : Bytes}
    (ha : AuditLog.Wrote hmac a a' payload)
    (hb : AuditLog.Wrote hmac b b' payload) (hsecret : a.secret = b.secret)
    (hprev : a.hmacPrev = b.hmacPrev) : a'.hmacPrev = b'.hmacPrev := by
  rw [ha.hmacPrev, hb.hmacPrev, hsecret, hprev]

theorem Alone.check_own (halone : Alone i p q) {own : EngineContext} {uid : Nat}
    {req : CheckRequest} {moment : AuditMoment} {r : CheckOutcome × Engine × AuditLog}
    (hown : p.contexts i = some own) (hopen : moment.openOk = true) (hstatics : p.Own i own uid)
    (hr : p.check V h hmac own now uid req moment = some r) :
    ∃ audit, q.check V h hmac own now uid req moment = some (r.1, r.2.1, audit) ∧
      Alone i
        { p with
          contexts := Function.update p.contexts i (some { own with sys.engine := r.2.1 })
          audit := r.2.2
          outcomes := (i, r.1) :: p.outcomes }
        { q with
          contexts := Function.update q.contexts i (some { own with sys.engine := r.2.1 })
          audit := audit
          outcomes := (i, r.1) :: q.outcomes } := by
  have hq : q.contexts i = some own := halone.context.symm.trans hown
  have hpath : p.audit.path = q.audit.path := hstatics.path.trans (halone.path own hq).symm
  have hsecret : p.audit.secret = q.audit.secret :=
    hstatics.secret.trans (halone.secret own hq).symm
  have hrole : q.roleStore own = own.sys.store := by
    simp [roleStore, halone.rbac own hq, hq]
  have hprev : p.audit.secret ≠ [] → p.audit.hmacPrev = q.audit.hmacPrev :=
    fun hne => halone.chain (hstatics.chain hne)
  obtain ⟨audit, hcheck, hwrote⟩ :=
    check_congr hopen (by rw [hrole]; exact hstatics.roles) hpath hsecret
    (hstatics.path ▸ hstatics.file) halone.file hprev hr
  refine ⟨audit, hcheck, ?_⟩
  obtain ⟨hpathq, hsecretq⟩ : audit.path = q.audit.path ∧ audit.secret = q.audit.secret := by
    rcases hwrote with ⟨-, -, rfl⟩ | ⟨-, payload, -, hw⟩
    · exact ⟨rfl, rfl⟩
    · exact ⟨hw.path, hw.secret⟩
  refine ⟨by simp, ?_, by simp, fun _ _ => halone.rbac own hq,
    by simpa [hpathq] using halone.path own hq, by simpa [hsecretq] using halone.secret own hq, ?_,
      ?_⟩
  · refine ((outcomesOf_cons (p := p) rfl i).trans ?_).trans (outcomesOf_cons (p := q) rfl i).symm
    rw [if_pos rfl, if_pos rfl, halone.outcomes]
  · rcases hwrote with ⟨-, -, rfl⟩ | ⟨-, payload, -, hw⟩
    · exact halone.file
    · exact .inr (hw.file.trans (by rw [hw.path]))
  · intro hwriter
    have honly : p.OnlyWriter i := fun o ho => hwriter o (mem_cons_of_mem _ ho)
    rcases hwrote with ⟨-, hp, rfl⟩ | ⟨-, payload, hwp, hwq⟩
    · simp only [hp]
      exact halone.chain honly
    · exact hmacPrev_of_wrote hwp hwq hsecret (halone.chain honly)

/-! ## §4 Steps -/

theorem Alone.step_own {e : ProcessEvent} (halone : Alone i p q) (hcond : p.Undisturbed e)
    (hs : p.step V h hmac e = some p') (he : e.context = i) :
    ∃ q', q.step V h hmac e = some q' ∧ Alone i p' q' := by
  subst he
  cases e with
  | init i store audit yday =>
    have hctx : p.contexts i = q.contexts i := halone.context
    simp only [step, ProcessEvent.context, ← hctx] at hs ⊢
    cases hp : p.contexts i with
    | some own =>
      simp only [hp] at hs
      cases hs
      exact ⟨q, rfl, halone⟩
    | none =>
      simp only [hp] at hs
      cases hs
      refine ⟨_, rfl, ?_⟩
      have hinit := halone.unused (hctx.symm.trans hp)
      refine ⟨by simp, halone.outcomes, by simp, fun _ _ => rfl, ?_, ?_, ?_, halone.chain⟩
      · simp [hinit, AuditLog.configure, ownPath, AuditLog.initial]
      · simp [AuditLog.configure]
      · rw [hinit]
        exact .inl rfl
  | manage i m =>
    have hctx : p.contexts i = q.contexts i := halone.context
    simp only [step, ProcessEvent.context, ← hctx] at hs ⊢
    cases hp : p.contexts i with
    | none =>
      simp only [hp] at hs
      cases hs
      exact ⟨q, rfl, halone⟩
    | some own =>
      simp only [hp] at hs
      cases hs
      have hq : q.contexts i = some own := hctx.symm.trans hp
      refine ⟨_, rfl, ?_⟩
      exact ⟨by simp, halone.outcomes, by simp, fun _ _ => halone.rbac own hq,
        by simpa using halone.path own hq, by simpa using halone.secret own hq, halone.file,
          halone.chain⟩
  | check i now uid req moment =>
    have hctx : p.contexts i = q.contexts i := halone.context
    simp only [step, ProcessEvent.context, ← hctx] at hs ⊢
    cases hp : p.contexts i with
    | none =>
      simp only [hp] at hs
      cases hs
      exact ⟨q, rfl, halone⟩
    | some own =>
      simp only [hp] at hs ⊢
      obtain ⟨r, hr, rfl⟩ := map_eq_some_iff.mp hs
      obtain ⟨audit, hcheck, hnext⟩ := halone.check_own hp hcond.1 (hcond.2 own hp) hr
      rw [hcheck]
      exact ⟨_, rfl, hnext⟩

theorem Alone.step_other {e : ProcessEvent} (halone : Alone i p q) (hcond : p.Undisturbed e)
    (hs : p.step V h hmac e = some p') (he : e.context ≠ i) : Alone i p' q := by
  cases e with
  | init | manage =>
    simp only [step] at hs
    split at hs
    · cases hs
      exact halone
    · cases hs
      exact halone.of_other (update_of_ne he.symm _ _) rfl fun hw => ⟨hw, rfl⟩
  | check j now uid req moment =>
    simp only [step] at hs
    split at hs
    · cases hs
      exact halone
    · next own hown =>
      obtain ⟨r, hr, rfl⟩ := map_eq_some_iff.mp hs
      have hstatics := hcond.2 own hown
      have hfile := hstatics.path ▸ hstatics.file
      -- the check of the other context is compared with itself to see what it wrote
      obtain ⟨audit, -, hwrote⟩ :=
        check_congr (q := p) hcond.1 rfl rfl rfl hfile hfile (fun _ => rfl) hr
      refine halone.of_other (update_of_ne he.symm _ _) ?_ fun hw => ?_
      · exact (outcomesOf_cons (p := p) rfl i).trans (if_neg he)
      · have hnone : r.1.line = none := hw _ mem_cons_self he
        refine ⟨fun o ho => hw o (mem_cons_of_mem _ ho), ?_⟩
        rcases hwrote with ⟨-, hsame, -⟩ | ⟨hsome, -⟩
        · simp only [hsame]
        · exact absurd hnone hsome

/-! ## §5 Runs -/

theorem independent_of_undisturbed (V : Vendor) (h : Heap) (hmac : Bytes → Bytes → Bytes)
    (events : List ProcessEvent) (p : Process)
    (hcond : Run.Along (step V h hmac) Undisturbed events start)
    (hrun : Run.run (step V h hmac) events start = some p) (i : Nat) :
    ∃ q, Run.run (step V h hmac) (events.filter fun e => e.context == i) start = some q ∧
      p.outcomesOf i = q.outcomesOf i := by
  let keep : ProcessEvent → Bool := fun e => e.context == i
  have hkeep : ∀ s t e s', Alone i s t → s.Undisturbed e → s.step V h hmac e = some s' →
      keep e = true → ∃ t', t.step V h hmac e = some t' ∧ Alone i s' t' :=
    fun _ _ _ _ hrel hc hs hk => hrel.step_own hc hs (by simpa [keep] using hk)
  have hskip : ∀ s t e s', Alone i s t → s.Undisturbed e → s.step V h hmac e = some s' →
      keep e = false → Alone i s' t :=
    fun _ _ _ _ hrel hc hs hk => hrel.step_other hc hs (by simpa [keep] using hk)
  obtain ⟨q, hq, halone⟩ := Run.simulation_of_filter hkeep hskip (alone_start i) hcond hrun
  exact ⟨q, hq, halone.outcomes⟩

/-! ## §6 Two contexts of one process -/

def adminRules : Bytes := lit "\x7b\"roles\":[\x7b\"name\":\"admin\",\"effect\":\"allow\"\x7d]\x7d"

def adminVendor : Vendor :=
  .ofTable [(adminRules,
    .obj [(lit "roles",
      .arr [.obj [(lit "name", .str (lit "admin")), (lit "effect", .str (lit "allow"))]])])]

def adminPolicy : Policy where
  id := 1
  name := lit "admins"
  strategyType := .rbac
  effect := .allow
  priority := 0
  rules := adminRules
  status := .enabled

/-- A user who has the role `admin`, and a role policy for this role. -/
def adminStore : Store :=
  { memOpen with
    users := [sampleUser]
    roles := [{ id := 1, name := lit "admin", parentRoleId := 0, status := .active }]
    userRoles := [(1, 1)]
    policies := [adminPolicy]
    policyAssignments := [⟨1, .user, 1⟩] }

/-- No audit path, no secret. -/
def plainAudit : AuditSettings where
  path := []
  secret := []
  maxSizeMb := 0
  rotateDaily := false

def quietMoment : AuditMoment where
  timestampMs := 1
  durationMs := 0
  yday := 0
  fileSize := none
  openOk := true
  trace := []

def noHmac : Bytes → Bytes → Bytes := fun _ _ => []

/-- `perm_check_rbac(ctx, 1, "admin", ...)` on context `i`. -/
def askAdmin (i : Nat) : ProcessEvent := .check i 1 1 (.rbac (lit "admin")) quietMoment

/-- The decision on the only check of context `i`. -/
def decided (p : Process) (i : Nat) : Option Bool :=
    (p.outcomesOf i).head?.map fun o => o.result.allowed

/-- The context that was set up last is asked. -/
def askedLast : List ProcessEvent :=
  [.init 1 memOpen plainAudit 0, .init 0 adminStore plainAudit 0, askAdmin 0]

/-- Another context was set up after the one that is asked. -/
def askedFirst : List ProcessEvent :=
  [.init 0 adminStore plainAudit 0, .init 1 memOpen plainAudit 0, askAdmin 0]

theorem askedLast_undisturbed :
    Run.Along (step adminVendor emptyHeap noHmac) Undisturbed askedLast start := by
  refine ⟨trivial, ?_⟩
  rintro s ⟨⟩
  refine ⟨trivial, ?_⟩
  rintro s ⟨⟩
  refine ⟨⟨rfl, ?_⟩, fun _ _ => trivial⟩
  rintro own ⟨⟩
  exact ⟨rfl, rfl, rfl, .inl rfl, by nofun⟩

/-- The context set up last decides as it would alone. -/
theorem last_context_independent : ∃ p q,
    Run.run (step adminVendor emptyHeap noHmac) askedLast start = some p ∧
      Run.run (step adminVendor emptyHeap noHmac) (askedLast.filter fun e => e.context == 0) start =
        some q ∧
      decided p 0 = some true ∧ p.outcomesOf 0 = q.outcomesOf 0 := by
  have hdecided : (Run.run (step adminVendor emptyHeap noHmac) askedLast start).map (decided · 0) =
      some (some true) := by decide +kernel
  obtain ⟨p, hrun, hp⟩ := map_eq_some_iff.mp hdecided
  obtain ⟨q, hq, hsame⟩ := independent_of_undisturbed adminVendor emptyHeap noHmac askedLast p
    askedLast_undisturbed hrun 0
  exact ⟨p, q, hrun, hq, hp, hsame⟩

/-- A context created later, with an empty store, takes the role away: the check that alone
is allowed is denied. -/
theorem other_context_denies :
    (Run.run (step adminVendor emptyHeap noHmac) askedFirst start).map (decided · 0) =
        some (some false) ∧
      (Run.run (step adminVendor emptyHeap noHmac) (askedFirst.filter fun e => e.context == 0)
        start).map (decided · 0) = some (some true) := by
  refine ⟨?_, ?_⟩ <;> decide +kernel

end Process

end SsoSystem
