/-
SsoSystem.Strategy.AbacThreads — two threads in `abac_evaluate`
(strategies/abac_perm.c) at once.

The engine evaluates under a shared read lock, and the "in" operator walks its
list with `strtok`, which keeps one saved position for the whole process. A
thread is a small machine over the conditions and, inside an "in", over the
tokens; each `strtok` call is one step. The saved position stands in the list of
one of the threads; a list is gone when its "in" is over, and what is read there
then is not known (`junk`).
-/
import SsoSystem.Lib.Run
import SsoSystem.Strategy.Attributes

namespace SsoSystem

open CMem Run List Option Function

/-! ## §1 `strtok` -/

/-- `strtok(NULL, ",")` at a position with this text ahead: the token and the text behind
it, or NULL at the end. -/
def strtokNext (ahead : Bytes) : Option Bytes × Bytes :=
  match ahead.dropWhile fun b => decide (b = comma) with
  | [] => (none, [])
  | b :: rest =>
    (some ((b :: rest).takeWhile fun b => decide (b ≠ comma)),
      ((b :: rest).dropWhile fun b => decide (b ≠ comma)).drop 1)

/-! ## §2 Threads -/

/-- One evaluation: a compiled rule and a request. -/
structure AbacJob where
  rule : AbacRule
  ctx : EvalContext

/-- Where a thread stands in `abac_evaluate`: before a condition, or in the token loop of an
"in" with the token it holds. -/
inductive AbacPhase where
  | idle
  | conditions (job : AbacJob) (left : List AbacCondition)
  | tokens (job : AbacJob) (actual : Bytes) (item : Option Bytes) (left : List AbacCondition)

structure AbacThread where
  todo : List AbacJob
  phase : AbacPhase
  results : List StrategyResult

/-- The two threads, the saved position (whose list, and the text ahead) and the number of
turns each thread had. -/
structure AbacThreads where
  thread : Bool → AbacThread
  saved : Option (Bool × Bytes)
  turns : Bool → Nat

def AbacThreads.start (jobs : Bool → List AbacJob) : AbacThreads where
  thread := fun t => { todo := jobs t, phase := .idle, results := [] }
  saved := none
  turns := fun _ => 0

/-- The end of `abac_evaluate`. -/
def abacOutcome (rule : AbacRule) (met : Bool) : StrategyResult :=
  if met then (.ok, rule.isAllowEffect) else (.notFound, false)

/-- Behind a condition: OR logic ends at the first match, AND logic at the first miss. -/
def AbacThread.proceed (w : AbacThread) (job : AbacJob) (matched : Bool)
    (left : List AbacCondition) : AbacThread :=
  if matched = job.rule.isOrLogic then
    { w with phase := .idle, results := w.results ++ [abacOutcome job.rule matched] }
  else { w with phase := .conditions job left }

/-- The attribute a condition looks at. -/
def abacActual (V : Vendor) (job : AbacJob) (c : AbacCondition) : Option Bytes :=
  attrText V 512 (Json.objGet (abacRoot V job.ctx c.source) c.attrName)

/-- The list of an "in" condition. -/
def inList (c : AbacCondition) : Bytes := strlcpy 1024 c.expectedValue

def AbacPhase.inTokens : AbacPhase → Bool
  | .tokens _ _ _ _ => true
  | _ => false

namespace AbacThreads

variable (V : Vendor) (s : AbacThreads) (ev : Bool × Bytes)

/-- The text `strtok(NULL, ",")` finds: what is ahead of the saved position, if the list it
stands in still exists. -/
def ahead (junk : Bytes) : Bytes :=
  match s.saved with
  | some (t, text) => if (s.thread t).phase.inTokens then text else junk
  | none => junk

def put (t : Bool) (w : AbacThread) (saved : Option (Bool × Bytes)) : AbacThreads where
  thread := Function.update s.thread t w
  saved := saved
  turns := Function.update s.turns t (s.turns t + 1)

/-- Whose list the saved position stands in. -/
def savedOwner (t : Bool) : Bool := (s.saved.map Prod.fst).getD t

/-- One turn of a thread. -/
def turn (t : Bool) (junk : Bytes) : AbacThreads :=
  let w := s.thread t
  match w.phase with
  | .idle =>
    match w.todo with
    | [] => s.put t w s.saved
    | job :: todo => s.put t { w with todo, phase := .conditions job job.rule.conditions } s.saved
  | .conditions job [] =>
    s.put t { w with
      phase := .idle
      results := w.results ++ [abacOutcome job.rule (!job.rule.isOrLogic)] } s.saved
  | .conditions job (c :: left) =>
    match abacActual V job c with
    | none => s.put t (w.proceed job false left) s.saved
    | some actual =>
      if c.op = lit "in" then
        s.put t { w with phase := .tokens job actual (strtokNext (inList c)).1 left }
          (some (t, (strtokNext (inList c)).2))
      else s.put t (w.proceed job (applyOperator V c.op actual c.expectedValue) left) s.saved
  | .tokens job _ none left => s.put t (w.proceed job false left) s.saved
  | .tokens job actual (some item) left =>
    if actual = trimSpaces item then s.put t (w.proceed job true left) s.saved
    else
      s.put t { w with phase := .tokens job actual (strtokNext (s.ahead junk)).1 left }
        (some (s.savedOwner t, (strtokNext (s.ahead junk)).2))

/-- A schedule says whose turn it is, and what would be found in a list that is gone. -/
def step : Option AbacThreads :=
  some (s.turn V ev.1 ev.2)

/-- The thread's turn starts a token loop. -/
def entersTokens (t : Bool) : Bool :=
  match (s.thread t).phase with
  | .conditions job (c :: _) => (abacActual V job c).isSome && c.op == lit "in"
  | _ => false

/-- No token loop is started inside the other thread's. -/
def Exclusive : Prop :=
  s.entersTokens V ev.1 = true → (s.thread !ev.1).phase.inTokens = false

instance : Decidable (s.Exclusive V ev) :=
  inferInstanceAs (Decidable (_ → _))

end AbacThreads

/-! ## §3 Evaluations that run alone -/

variable (V : Vendor) (w : AbacThread) (job : AbacJob) (matched : Bool) (left : List AbacCondition)
    (text : Bytes)

/-- The result of an evaluation that runs alone. -/
def AbacJob.alone : StrategyResult := abacEvaluate V job.rule job.ctx

/-- The turns a condition can take: one to look at it, one per token, one to leave. -/
def conditionWork (c : AbacCondition) : Nat := 2 + (strtokComma (inList c)).length

/-- The turns an evaluation can take. -/
def AbacJob.work : Nat := 2 + (job.rule.conditions.map conditionWork).sum

/-- Each evaluation returns what it returns alone: those that did, did; and after the turns
that its rules allow for, each did. -/
structure EachAsAlone (V : Vendor) (jobs : Bool → List AbacJob) (s : AbacThreads) : Prop where
  asAlone : ∀ t, (s.thread t).results <+: (jobs t).map (AbacJob.alone V)
  returns : ∀ t, ((jobs t).map AbacJob.work).sum ≤ s.turns t →
    (s.thread t).results = (jobs t).map (AbacJob.alone V)

/-! ## §4 Tokens -/

theorem strtokComma_cons_comma (rest : Bytes) : strtokComma (comma :: rest) = strtokComma rest := by
  simp [strtokComma, splitOn_cons_eq_if_modifyHead]

theorem strtokComma_token {t rest : Bytes} (hne : t ≠ []) (ht : comma ∉ t)
    (hrest : rest.head? ∈ [none, some comma]) :
    strtokComma (t ++ rest) = t :: strtokComma (rest.drop 1) := by
  cases rest with
  | nil =>
    have hsplit : t.splitOn comma = [t] := splitOn_eq_singleton ht
    simp [strtokComma, hsplit, hne]
  | cons b rest =>
    obtain rfl : b = comma := by simpa using hrest
    have hsplit : (t ++ comma :: rest).splitOn comma = t :: rest.splitOn comma :=
      splitOn_append_cons_self_of_not_mem ht rest
    simp [strtokComma, hsplit, hne]

/-- The tokens a loop still compares: the one it holds and those ahead. NULL ends it. -/
def tokensFrom : Option Bytes → Bytes → List Bytes
  | none, _ => []
  | some item, text => item :: strtokComma text

theorem tokensFrom_some (item text : Bytes) :
    tokensFrom (some item) text = item :: strtokComma text := rfl

theorem tokensFrom_strtokNext (ahead : Bytes) :
    tokensFrom (strtokNext ahead).1 (strtokNext ahead).2 = strtokComma ahead := by
  induction ahead with
  | nil => rfl
  | cons b rest ih =>
    by_cases hb : b = comma
    · subst hb
      rw [strtokComma_cons_comma, ← ih]
      simp [strtokNext]
    · have hnext : strtokNext (b :: rest) =
          (some ((b :: rest).takeWhile fun b => decide (b ≠ comma)),
            ((b :: rest).dropWhile fun b => decide (b ≠ comma)).drop 1) := by
        simp [strtokNext, hb]
      have hend : ((b :: rest).dropWhile fun b => decide (b ≠ comma)).head? ∈
          [none, some comma] := by
        have hnot := List.head?_dropWhile_not (fun b => decide (b ≠ comma)) (b :: rest)
        revert hnot
        cases ((b :: rest).dropWhile fun b => decide (b ≠ comma)).head? with
        | none => simp
        | some c => simp
      have htoken := strtokComma_token (t := (b :: rest).takeWhile fun b => decide (b ≠ comma))
        (by simp [hb]) (fun hmem => by simpa using mem_takeWhile_imp hmem) hend
      rw [takeWhile_append_dropWhile] at htoken
      rw [htoken, hnext]
      rfl

/-! ## §5 The result ahead -/

/-- The result from before these conditions on, the ones before them having decided nothing. -/
def resume : StrategyResult :=
  abacOutcome job.rule (if job.rule.isOrLogic then left.any (abacConditionHolds V job.ctx)
    else left.all (abacConditionHolds V job.ctx))

/-- The result from behind a condition on. -/
def settle : StrategyResult :=
  if matched = job.rule.isOrLogic then abacOutcome job.rule matched else resume V job left

theorem resume_conditions : resume V job job.rule.conditions = job.alone V := rfl

theorem resume_nil : resume V job [] = abacOutcome job.rule (!job.rule.isOrLogic) := by
  cases hor : job.rule.isOrLogic <;> simp [resume, hor]

theorem resume_cons (V : Vendor) (job : AbacJob) (c : AbacCondition) (left : List AbacCondition) :
    resume V job (c :: left) = settle V job (abacConditionHolds V job.ctx c) left := by
  cases hor : job.rule.isOrLogic <;> cases hc : abacConditionHolds V job.ctx c <;>
    simp [resume, settle, hor, hc]

theorem abacConditionHolds_eq (c : AbacCondition) :
    abacConditionHolds V job.ctx c =
      (abacActual V job c).any fun actual => applyOperator V c.op actual c.expectedValue := by
  unfold abacConditionHolds abacActual
  cases attrText V 512 (Json.objGet (abacRoot V job.ctx c.source) c.attrName) <;> rfl

theorem applyOperator_in (actual : Bytes) (c : AbacCondition) (hop : c.op = lit "in") :
    applyOperator V c.op actual c.expectedValue =
      (strtokComma (inList c)).any fun t => actual == trimSpaces t := by
  rw [hop]
  rfl

/-- The result a thread returns if it is left alone, with this text ahead in its list. -/
def AbacPhase.promise (V : Vendor) (text : Bytes) : AbacPhase → List StrategyResult
  | .idle => []
  | .conditions job left => [resume V job left]
  | .tokens job actual item left =>
    [settle V job ((tokensFrom item text).any fun t => actual == trimSpaces t) left]

/-- The turns a thread can still take in its evaluation. -/
def AbacPhase.work (text : Bytes) : AbacPhase → Nat
  | .idle => 0
  | .conditions _ left => 1 + (left.map conditionWork).sum
  | .tokens _ _ item left =>
    2 + (tokensFrom item text).length + (left.map conditionWork).sum

/-- Outside a token loop the text ahead is of no account. -/
theorem AbacPhase.promise_congr {V : Vendor} {phase : AbacPhase} (h : phase.inTokens = false)
    (text text' : Bytes) : phase.promise V text = phase.promise V text' := by
  cases phase with
  | tokens => cases h
  | _ => rfl

theorem AbacPhase.work_congr {phase : AbacPhase} (h : phase.inTokens = false)
    (text text' : Bytes) : phase.work text = phase.work text' := by
  cases phase with
  | tokens => cases h
  | _ => rfl

/-- All results of a thread, those to come included. -/
def AbacThread.owed (V : Vendor) (text : Bytes) (w : AbacThread) : List StrategyResult :=
  w.results ++ w.phase.promise V text ++ w.todo.map (AbacJob.alone V)

def AbacThread.work (text : Bytes) (w : AbacThread) : Nat :=
  w.phase.work text + (w.todo.map AbacJob.work).sum

def AbacThread.finished : Prop := w.todo = [] ∧ w.phase = .idle

theorem AbacThread.proceed_owed :
    (w.proceed job matched left).owed V text =
      w.results ++ [settle V job matched left] ++ w.todo.map (AbacJob.alone V) := by
  unfold AbacThread.proceed settle
  split
  · simp [AbacThread.owed, AbacPhase.promise]
  · simp [AbacThread.owed, AbacPhase.promise]

theorem AbacThread.proceed_work_le :
    (w.proceed job matched left).work text ≤
      1 + (left.map conditionWork).sum + (w.todo.map AbacJob.work).sum := by
  unfold AbacThread.proceed
  split
  · simp [AbacThread.work, AbacPhase.work]
  · simp [AbacThread.work, AbacPhase.work]

theorem AbacThread.proceed_not_inTokens : (w.proceed job matched left).phase.inTokens = false := by
  unfold AbacThread.proceed
  split <;> rfl

/-! ## §6 One turn -/

/-- The text ahead in the thread's own list. -/
def AbacThreads.ownText (s : AbacThreads) (t : Bool) : Bytes :=
  match s.saved with
  | some (o, text) => if o = t then text else []
  | none => []

/-- Each thread owes what it owed at the start, a thread in a token loop owns the saved
position, and no thread takes more turns than it may. -/
structure AbacThreadsInv (V : Vendor) (jobs : Bool → List AbacJob) (s : AbacThreads) : Prop where
  owed : ∀ t, (s.thread t).owed V (s.ownText t) = (jobs t).map (AbacJob.alone V)
  own : ∀ t, (s.thread t).phase.inTokens = true → ∃ text, s.saved = some (t, text)
  onTime : ∀ t, (s.thread t).finished ∨
    (s.thread t).work (s.ownText t) + s.turns t ≤ ((jobs t).map AbacJob.work).sum

section Turn

variable {V : Vendor} {jobs : Bool → List AbacJob} {s : AbacThreads} {t : Bool}

/-- A turn that keeps what its thread owes and takes one off its work. The other thread sees
nothing of it: the position is moved only while that one is in no token loop. -/
theorem AbacThreadsInv.put (hinv : AbacThreadsInv V jobs s) {w : AbacThread}
    {saved : Option (Bool × Bytes)} (text : Bytes)
    (htext : saved = some (t, text) ∨ w.phase.inTokens = false)
    (howed : w.owed V text = (s.thread t).owed V (s.ownText t))
    (hwork : w.finished ∨ w.work text < (s.thread t).work (s.ownText t))
    (hother : saved = s.saved ∨ (s.thread !t).phase.inTokens = false) :
    AbacThreadsInv V jobs (s.put t w saved) := by
  have hself : (s.put t w saved).thread t = w := update_self ..
  have hthread : (s.put t w saved).thread (!t) = s.thread (!t) :=
    update_of_ne (Bool.not_ne_self t) ..
  have hturns : (s.put t w saved).turns (!t) = s.turns (!t) :=
    update_of_ne (Bool.not_ne_self t) ..
  have htaken : (s.put t w saved).turns t = s.turns t + 1 := update_self ..
  -- the own list of the thread whose turn it was
  have hown : w.owed V ((s.put t w saved).ownText t) = w.owed V text ∧
      w.work ((s.put t w saved).ownText t) = w.work text := by
    rcases htext with rfl | hout
    · have : (s.put t w (some (t, text))).ownText t = text := if_pos rfl
      rw [this]
      exact ⟨rfl, rfl⟩
    · unfold AbacThread.owed AbacThread.work
      rw [AbacPhase.promise_congr hout _ text, AbacPhase.work_congr hout _ text]
      exact ⟨rfl, rfl⟩
  have hrest : (s.thread !t).owed V ((s.put t w saved).ownText !t) =
        (s.thread !t).owed V (s.ownText !t) ∧
      (s.thread !t).work ((s.put t w saved).ownText !t) = (s.thread !t).work (s.ownText !t) := by
    rcases hother with rfl | hout
    · exact ⟨rfl, rfl⟩
    · unfold AbacThread.owed AbacThread.work
      rw [AbacPhase.promise_congr hout _ (s.ownText !t), AbacPhase.work_congr hout _ (s.ownText !t)]
      exact ⟨rfl, rfl⟩
  refine ⟨fun u => ?_, fun u hu => ?_, fun u => ?_⟩
  · obtain rfl | rfl := Bool.eq_or_eq_not u t
    · rw [hself, hown.1, howed, hinv.owed]
    · rw [hthread, hrest.1, hinv.owed]
  · obtain rfl | rfl := Bool.eq_or_eq_not u t
    · rw [hself] at hu
      rcases htext with htext | hout
      · exact ⟨text, htext⟩
      · exact absurd (hu.symm.trans hout) (by decide)
    · rw [hthread] at hu
      rcases hother with hsame | hout
      · obtain ⟨x, hx⟩ := hinv.own _ hu
        exact ⟨x, hsame.trans hx⟩
      · exact absurd (hu.symm.trans hout) (by decide)
  · obtain rfl | rfl := Bool.eq_or_eq_not u t
    · rw [hself, hown.2, htaken]
      rcases hwork with hdone | hless
      · exact .inl hdone
      · refine .inr ?_
        rcases hinv.onTime u with hdone | htime
        · have : (s.thread u).work (s.ownText u) = 0 := by
            simp [AbacThread.work, hdone.1, hdone.2, AbacPhase.work]
          omega
        · omega
    · rw [hthread, hrest.2, hturns]
      exact hinv.onTime _

theorem AbacThreadsInv.proceed (hinv : AbacThreadsInv V jobs s) {job : AbacJob} {matched : Bool}
    {left : List AbacCondition}
    (hpromise : (s.thread t).phase.promise V (s.ownText t) = [settle V job matched left])
    (hwork : 1 + (left.map conditionWork).sum < (s.thread t).phase.work (s.ownText t)) :
    AbacThreadsInv V jobs (s.put t ((s.thread t).proceed job matched left) s.saved) := by
  refine hinv.put [] (.inr ((s.thread t).proceed_not_inTokens job matched left)) ?_ ?_
    (.inl rfl)
  · rw [AbacThread.proceed_owed, AbacThread.owed, hpromise]
  · refine .inr (lt_of_le_of_lt ((s.thread t).proceed_work_le job matched left []) ?_)
    unfold AbacThread.work
    omega

/-- The saved position while a thread is in its token loop. -/
theorem AbacThreadsInv.ahead_eq (hinv : AbacThreadsInv V jobs s)
    (htokens : (s.thread t).phase.inTokens = true) (junk : Bytes) :
    s.ahead junk = s.ownText t ∧ s.savedOwner t = t ∧ (s.thread !t).phase.inTokens = false := by
  obtain ⟨text, htext⟩ := hinv.own t htokens
  refine ⟨?_, ?_, ?_⟩
  · simp [AbacThreads.ahead, AbacThreads.ownText, htext, htokens]
  · simp [AbacThreads.savedOwner, htext]
  · cases hother : (s.thread !t).phase.inTokens with
    | false => rfl
    | true =>
      obtain ⟨text', htext'⟩ := hinv.own _ hother
      rw [htext] at htext'
      have := congrArg Prod.fst (some.inj htext')
      exact absurd this (by simp)

theorem AbacThreadsInv.turn (hinv : AbacThreadsInv V jobs s) (junk : Bytes)
    (hexcl : s.Exclusive V (t, junk)) : AbacThreadsInv V jobs (s.turn V t junk) := by
  unfold AbacThreads.turn
  simp only
  split
  · next hphase =>
    split
    · next htodo =>
      refine hinv.put _ (.inr (by rw [hphase]; rfl)) rfl (.inl ⟨htodo, hphase⟩) (.inl rfl)
    · next job todo htodo =>
      refine hinv.put (s.ownText t) (.inr rfl) ?_ (.inr ?_) (.inl rfl)
      · simp [AbacThread.owed, hphase, htodo, AbacPhase.promise, resume_conditions]
      · simp only [AbacThread.work, AbacPhase.work, hphase, htodo, AbacJob.work, map_cons,
          sum_cons]
        omega
  · next job hphase =>
    refine hinv.put (s.ownText t) (.inr rfl) ?_ (.inr ?_) (.inl rfl)
    · simp [AbacThread.owed, hphase, AbacPhase.promise, resume_nil]
    · simp [AbacThread.work, AbacPhase.work, hphase]
  · next job c left hphase =>
    have hholds := abacConditionHolds_eq V job c
    have hpromise : (s.thread t).phase.promise V (s.ownText t) =
        [settle V job (abacConditionHolds V job.ctx c) left] := by
      rw [hphase, AbacPhase.promise, resume_cons]
    have hwork : 1 + (left.map conditionWork).sum < (s.thread t).phase.work (s.ownText t) := by
      simp only [hphase, AbacPhase.work, map_cons, sum_cons, conditionWork]
      omega
    split
    · next hactual =>
      rw [hactual, any_none] at hholds
      exact hinv.proceed (by rw [hpromise, hholds]) hwork
    · next actual hactual =>
      rw [hactual, any_some] at hholds
      split
      · next hop =>
        -- the thread enters the loop: the other one is in none
        have hout : (s.thread !t).phase.inTokens = false := hexcl (by
          simp [AbacThreads.entersTokens, hphase, hactual, hop])
        have htokens := tokensFrom_strtokNext (inList c)
        refine hinv.put _ (.inl rfl) ?_ (.inr ?_) (.inr hout)
        · rw [AbacThread.owed, AbacThread.owed, hpromise, hholds, applyOperator_in V actual c hop,
            ← htokens]
          rfl
        · simp only [AbacThread.work, AbacPhase.work, hphase, map_cons, sum_cons,
            conditionWork, htokens]
          omega
      · exact hinv.proceed (by rw [hpromise, hholds]) hwork
  · next job actual left hphase =>
    refine hinv.proceed (by rw [hphase]; rfl) ?_
    simp only [hphase, AbacPhase.work, tokensFrom, length_nil]
    omega
  · next job actual item left hphase =>
    obtain ⟨hahead, howner, hout⟩ := hinv.ahead_eq (t := t) (by rw [hphase]; rfl) junk
    split
    · next hmatch =>
      refine hinv.proceed ?_ ?_
      · simp [hphase, AbacPhase.promise, tokensFrom_some, hmatch]
      · simp only [hphase, AbacPhase.work, tokensFrom_some, length_cons]
        omega
    · next hmiss =>
      have htokens := tokensFrom_strtokNext (s.ownText t)
      rw [hahead, howner]
      refine hinv.put _ (.inl rfl) ?_ (.inr ?_) (.inr hout)
      · simp [AbacThread.owed, hphase, AbacPhase.promise, htokens, tokensFrom_some,
          beq_eq_false_iff_ne.mpr hmiss]
      · simp only [AbacThread.work, AbacPhase.work, hphase, htokens, tokensFrom_some,
          length_cons]
        omega

theorem AbacThreadsInv.eachAsAlone (hinv : AbacThreadsInv V jobs s) : EachAsAlone V jobs s where
  asAlone t := by
    rw [← hinv.owed t, AbacThread.owed, append_assoc]
    exact prefix_append _ _
  returns t hturns := by
    have hfinished : (s.thread t).finished := by
      rcases hinv.onTime t with hdone | htime
      · exact hdone
      · -- no turn is left, so there is nothing to do
        have hzero : (s.thread t).work (s.ownText t) = 0 := by omega
        unfold AbacThread.work at hzero
        constructor
        · cases htodo : (s.thread t).todo with
          | nil => rfl
          | cons job todo =>
            simp only [htodo, map_cons, sum_cons, AbacJob.work] at hzero
            omega
        · cases hphase : (s.thread t).phase with
          | idle => rfl
          | conditions | tokens =>
            simp only [hphase, AbacPhase.work] at hzero
            omega
    rw [← hinv.owed t, AbacThread.owed, hfinished.1, hfinished.2]
    simp [AbacPhase.promise]

end Turn

theorem abacThreadsInv_start (V : Vendor) (jobs : Bool → List AbacJob) :
    AbacThreadsInv V jobs (.start jobs) where
  owed t := rfl
  own t ht := by cases ht
  onTime t := .inr (by simp [AbacThreads.start, AbacThread.work, AbacPhase.work])

/-! ## §7 Runs -/

/-- **Concurrent evaluations.** In every interleaving in which no thread starts a token loop
inside the other's, each evaluation returns what it returns alone. -/
theorem asAlone_of_exclusive {V : Vendor} {jobs : Bool → List AbacJob}
    {schedule : List (Bool × Bytes)} {s : AbacThreads}
    (hexcl : Along (AbacThreads.step V) (AbacThreads.Exclusive V) schedule (.start jobs))
    (hrun : run (AbacThreads.step V) schedule (.start jobs) = some s) : EachAsAlone V jobs s := by
  refine AbacThreadsInv.eachAsAlone (invariant_of_run ?_ (abacThreadsInv_start V jobs) hexcl hrun)
  rintro s ⟨t, junk⟩ s' hinv hcond hstep
  cases hstep
  exact hinv.turn junk hcond

def roleCondition (list : String) : AbacCondition where
  attrName := lit "role"
  source := .subject
  op := lit "in"
  expectedValue := lit list

/-- An evaluation of "role in list" for a subject with the role admin. -/
def roleJob (list : String) : AbacJob where
  rule :=
    { conditions := [roleCondition list]
      isOrLogic := false
      isAllowEffect := true }
  ctx :=
    { userId := 1
      params := Block.zero.strlcpy 0 2048 (lit "admin subject")
      environment := []
      fieldFilter := none
      recordOwned := false }

def adminVendor : Vendor :=
  .ofTable [(lit "admin subject", .obj [(lit "role", .str (lit "admin"))])]

/-- One thread looks for the role among "guest,user", the other among "root,admin". -/
def roleJobs : Bool → List AbacJob
  | false => [roleJob "guest,user"]
  | true => [roleJob "root,admin"]

/-- First one thread, then the other. -/
def orderlySchedule : List (Bool × Bytes) :=
  List.replicate 6 (false, []) ++ List.replicate 6 (true, [])

theorem orderlySchedule_asAlone :
    ∃ s, run (AbacThreads.step adminVendor) orderlySchedule (.start roleJobs) = some s ∧
      EachAsAlone adminVendor roleJobs s := by
  obtain ⟨s, hrun⟩ :
      ∃ s, run (AbacThreads.step adminVendor) orderlySchedule (.start roleJobs) = some s := ⟨_, rfl⟩
  refine ⟨s, hrun, asAlone_of_exclusive ?_ hrun⟩
  decide +kernel

/-- The second thread starts its list while the first one holds "guest". -/
def nestedSchedule : List (Bool × Bytes) :=
  [(false, []), (false, []), (true, []), (true, []), (false, []), (false, []), (false, [])]

/-- The first thread then takes "admin" from the other's list, and allows. -/
theorem nestedSchedule_allows :
    (roleJob "guest,user").alone adminVendor = (.notFound, false) ∧
    ∃ s, run (AbacThreads.step adminVendor) nestedSchedule (.start roleJobs) = some s ∧
      (s.thread false).results = [(.ok, true)] := by
  refine ⟨by decide +kernel, ?_⟩
  exact exists_some_of_any (by decide +kernel) fun _ _ h => h

end SsoSystem
