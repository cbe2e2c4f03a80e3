/-
SsoSystem.Permission.ContextMemory — which pointers a permission check frees.

`eval_context_destroy` frees `data.record` and `data.field_filter` whatever the
check was about, and these two lie over the texts of the other members of the
union: bytes 64 to 71 and 80 to 87. The data strategy frees the same field
filter before it stores its own, and the generic handler prints the names in it
before it frees anything. `checkFrees` and `handlerFrees` list what is passed to
`free`, with a mark that says whether the context allocated it. What stands in
memory where a stray filter points is a parameter (`StrayReads`); a read that
faults ends the process, and nothing is freed behind it.

The main result is the exact condition under which every pointer in the two
lists may be freed (`contextFrees_ok_iff`).
-/
import SsoSystem.Permission.EngineTheorems

namespace SsoSystem

open CMem List Option CheckRequest

/-! ## §1 What is passed to `free` -/

/-- A pointer passed to `free`, and whether it is an allocation of this context that was
not freed before. -/
structure FreedPtr where
  word : Nat
  own : Bool

/-- `free` may be called on it. -/
def FreedPtr.Ok (p : FreedPtr) : Prop := p.word = 0 ∨ p.own = true

/-- How reading a number of entries from an address goes that was not allocated for the
context. -/
structure StrayReads where
  /-- Entries are freed one by one: no fault up to the first that is not NULL. -/
  freed : Nat → Nat → Bool
  /-- The entries and the texts behind them can all be read. -/
  printed : Nat → Nat → Bool
  freed_of_printed : ∀ ptr count, printed ptr count = true → freed ptr count = true

def EvalContext.fieldFilterCount (ctx : EvalContext) : Nat := ctx.wordAt 88

/-- The field filter, which is freed behind its entries if it is not NULL. In the place of a
stray filter stands whatever `free` is called on first. -/
def EvalContext.filterFree (M : StrayReads) (ctx : EvalContext) : List FreedPtr :=
  if ctx.fieldFilterPtr = 0 then []
  else if ctx.fieldFilter.isSome then [⟨ctx.fieldFilterPtr, true⟩]
  else if ctx.fieldFilterCount ≠ 0 ∧ !M.freed ctx.fieldFilterPtr ctx.fieldFilterCount then []
  else [⟨ctx.fieldFilterPtr, false⟩]

/-- The generic handler gets the names of the fields into its answer: there are none, the list is
the context's own, or what a stray pointer points to can be read. -/
def EvalContext.namesPrinted (M : StrayReads) (ctx : EvalContext) : Bool :=
  ctx.fieldFilterCount == 0 || ctx.fieldFilter.isSome ||
    (ctx.fieldFilterPtr != 0 && M.printed ctx.fieldFilterPtr ctx.fieldFilterCount)

/-- `eval_context_destroy`. -/
def EvalContext.destroyFrees (M : StrayReads) (ctx : EvalContext) : List FreedPtr :=
  ⟨ctx.record, ctx.recordOwned⟩ :: ctx.filterFree M

variable (M : StrayReads) (V : Vendor) (h : Heap) (s : Store) (eng : Engine) (now : UInt64)
  (user : User) (req : CheckRequest)

/-- What `data_evaluate` frees: the filter that stands in the context, on a match with
"allowed_fields". -/
def dataFrees (rule : DataRule) (ctx : EvalContext) : List FreedPtr :=
  if ctx.resourceType = rule.resourceType ∧ dataRecordCheck V h rule ctx.record = some .ok ∧
      rule.allowedFields ≠ [] then ctx.filterFree M
  else []

/-- What one policy frees. -/
def policyFrees (p : Policy) (ctx : EvalContext) : List FreedPtr :=
  if p.status = .disabled then []
  else
    match p.strategyType, (compiledFor V eng p).1 with
    | .data, some (.data rule) => dataFrees M V h rule ctx
    | _, _ => []

/-- What the policy loop frees. -/
def loopFrees (M : StrayReads) (V : Vendor) (h : Heap) (s : Store) :
    List Policy → Engine → EvalContext → List FreedPtr
  | [], _, _ => []
  | p :: ps, eng, ctx =>
    policyFrees M V h eng p ctx ++
      match evaluatePolicy V h s eng p ctx with
      | none => []
      | some ((.ok, false), _, _) => []
      | some (_, ctx', eng') => loopFrees M V h s ps eng' ctx'

/-- What an evaluation frees. -/
def evaluationFrees (ctx : EvalContext) : List FreedPtr :=
  match eng.lookupL2 ctx.userId (hashParams ctx) now with
  | some _ => []
  | none => loopFrees M V h s (eng.policiesFor s ctx.userId now)
      (if eng.hitL1 ctx.userId now ∨ eng.policiesFor s ctx.userId now = [] then eng
        else eng.writeL1 ctx.userId now (eng.policiesFor s ctx.userId now)) ctx

/-- What a check frees at its end. `perm_check_data` hands the field filter to its caller. -/
def CheckRequest.finalFrees (M : StrayReads) (ctx : EvalContext) : CheckRequest → List FreedPtr
  | .data _ _ => [⟨ctx.record, ctx.recordOwned⟩]
  | _ => ctx.destroyFrees M

/-- What `perm_check_*` frees for a user that was found. -/
def checkFrees : List FreedPtr :=
  evaluationFrees M V (req.heap h) s eng now (req.context user) ++
    match evaluateInternal V (req.heap h) s eng now (req.context user) with
    | none => []
    | some (_, ctx, _) => req.finalFrees M ctx

/-! ## §2 The generic handler -/

/-- The texts `handle_check_permission` finds in the body. A record comes with its address in
the JSON document. -/
structure GenericCheck where
  functionCode : Option Bytes
  apiMethod : Option Bytes
  apiPath : Option Bytes
  resourceType : Option Bytes
  record : Option (Bytes × UserAddr)
  roleName : Option Bytes
  sourceIp : Option Bytes
  lbacUserLabels : Option Bytes
  lbacResourceLabel : Option Bytes
  abacSubjectAttrs : Option Bytes
  abacResourceAttrs : Option Bytes
  abacAction : Option Bytes
  environment : Option Bytes

namespace GenericCheck

/-- Two texts that are only taken together. -/
def copyBoth (m : Block) (off size off' size' : Nat) : Option Bytes → Option Bytes → Block
  | some a, some b => (m.strlcpy off size a).strlcpy off' size' b
  | _, _ => m

/-- The resource type, and with it the record. -/
def copyData (m : Block) : Option Bytes → Option (Bytes × UserAddr) → Block
  | none, _ => m
  | some rt, none => m.strlcpy 0 64 rt
  | some rt, some (_, addr) => (m.strlcpy 0 64 rt).putLe 64 8 addr.val

variable (M : StrayReads) (V : Vendor) (h : Heap) (s : Store) (eng : Engine) (now : UInt64)
  (user : User) (g : GenericCheck)

/-- The union, filled member after member. -/
def params : Block :=
  let m := CheckRequest.copyOpt Block.zero 0 128 g.functionCode
  let m := copyBoth m 0 8 8 1024 g.apiMethod g.apiPath
  let m := copyData m g.resourceType g.record
  let m := CheckRequest.copyOpt m 0 64 g.roleName
  let m := CheckRequest.copyOpt m 0 64 g.sourceIp
  let m := copyBoth m 0 256 256 64 g.lbacUserLabels g.lbacResourceLabel
  let m := CheckRequest.copyOpt m 0 2048 g.abacSubjectAttrs
  let m := CheckRequest.copyOpt m 2048 2048 g.abacResourceAttrs
  CheckRequest.copyOpt m 4096 64 g.abacAction

def heap : Heap :=
  match g.resourceType, g.record with
  | some _, some (record, addr) => { h with load := Function.update h.load addr (some record) }
  | _, _ => h

/-- The context the handler evaluates; nothing in it was allocated for it. -/
def context (g : GenericCheck) (user : User) : EvalContext :=
  { evalContextInit user with
    params := g.params
    environment := strlcpy 2048 (g.environment.getD []) }

/-- What the handler frees: after the names were printed the record, then what
`eval_context_destroy` does, which is not told that the record is gone. There is a trace
whenever the evaluation succeeds. -/
def handlerFrees : List FreedPtr :=
  evaluationFrees M V (g.heap h) s eng now (g.context user) ++
    match evaluateInternal V (g.heap h) s eng now (g.context user) with
    | none => []
    | some (_, ctx, _) =>
      if ctx.namesPrinted M then
        (if ctx.record = 0 then [] else [⟨ctx.record, ctx.recordOwned⟩]) ++
          ⟨ctx.record, false⟩ :: ctx.filterFree M
      else []

end GenericCheck

/-! ## §3 What an evaluation leaves alone -/

/-- The pointers of the context mean what they meant. -/
structure KeepsPtrs (ctx ctx' : EvalContext) : Prop where
  record : ctx'.record = ctx.record
  owned : ctx'.recordOwned = ctx.recordOwned
  freeable : ctx'.fieldFilterFreeable = ctx.fieldFilterFreeable
  filter : ctx'.fieldFilter.isSome = true ∨ ctx' = ctx

theorem KeepsPtrs.refl (ctx : EvalContext) : KeepsPtrs ctx ctx := ⟨rfl, rfl, rfl, .inr rfl⟩

theorem KeepsPtrs.trans {a b c : EvalContext} (hab : KeepsPtrs a b) (hbc : KeepsPtrs b c) :
    KeepsPtrs a c := by
  refine ⟨hbc.record.trans hab.record, hbc.owned.trans hab.owned, hbc.freeable.trans hab.freeable,
    ?_⟩
  rcases hbc.filter with hown | rfl
  · exact .inl hown
  · exact hab.filter

variable {M : StrayReads} {V : Vendor} {h : Heap} {ctx ctx' : EvalContext} {r : StrategyResult}
  {s : Store}
  {eng : Engine}

theorem evaluatePolicy_keeps {eng' : Engine} {p : Policy}
    (he : evaluatePolicy V h s eng p ctx = some (r, ctx', eng')) : KeepsPtrs ctx ctx' := by
  rcases evaluatePolicy_filter he with rfl | ⟨hfree, fields, rfl⟩
  · exact .refl _
  · refine ⟨?_, rfl, ?_, .inl rfl⟩
    · exact Block.leNat_congr fun i _ hi => EvalContext.setFieldFilter_params_of_not_mem (by omega)
    · rw [hfree]
      simp [EvalContext.fieldFilterFreeable, EvalContext.setFieldFilter]

variable {out : Bool × EvalContext × Engine} {ps : List Policy} {now : UInt64} {req : CheckRequest}
  {user : User}

theorem evalLoop_keeps {any : Bool}
    (hloop : evalLoop V h s ps any eng ctx = some out) : KeepsPtrs ctx out.2.1 := by
  induction ps generalizing any eng ctx with
  | nil =>
    cases hloop
    exact .refl _
  | cons p ps ih =>
    unfold evalLoop at hloop
    split at hloop
    · cases hloop
    · next he => exact (evaluatePolicy_keeps he).trans (ih hloop)
    · next he =>
      cases hloop
      exact evaluatePolicy_keeps he
    · next he => exact (evaluatePolicy_keeps he).trans (ih hloop)

theorem evaluateInternal_keeps
    (he : evaluateInternal V h s eng now ctx = some out) : KeepsPtrs ctx out.2.1 := by
  rcases evaluateInternal_cases he with ⟨-, hout⟩ | ⟨eng', -, hd⟩
  · rw [hout]
    exact .refl _
  · unfold decideOn at hd
    split at hd
    · cases hd
      exact .refl _
    · obtain ⟨r, hloop, rfl⟩ := map_eq_some_iff.mp hd
      exact (evalLoop_keeps hloop : KeepsPtrs ctx r.2.1)

/-! ## §4 The pointers that are freed -/

theorem filterFree_ok_iff (M : StrayReads) (ctx : EvalContext) :
    (∀ p ∈ ctx.filterFree M, p.Ok) ↔ ctx.fieldFilterFreeable = true ∨
      ctx.fieldFilterCount ≠ 0 ∧ M.freed ctx.fieldFilterPtr ctx.fieldFilterCount = false := by
  unfold EvalContext.filterFree EvalContext.fieldFilterFreeable
  by_cases h0 : ctx.fieldFilterPtr = 0
  · simp [h0]
  · by_cases hown : ctx.fieldFilter.isSome = true
    · simp [h0, hown, FreedPtr.Ok]
    · rw [if_neg h0, if_neg hown]
      split
      · next hfault => simp_all
      · next hfault => simp_all [FreedPtr.Ok]

/-- If the filter may be freed at first, the evaluation frees only its own ones. -/
theorem loopFrees_ok (hfree : ctx.fieldFilterFreeable = true) :
    ∀ p ∈ loopFrees M V h s ps eng ctx, p.Ok := by
  induction ps generalizing eng ctx with
  | nil => simp [loopFrees]
  | cons q ps ih =>
    have hpolicy : ∀ p ∈ policyFrees M V h eng q ctx, p.Ok := by
      unfold policyFrees
      split
      · simp
      · split
        · unfold dataFrees
          split
          · exact (filterFree_ok_iff M ctx).mpr (.inl hfree)
          · simp
        · simp
    intro p hp
    rw [loopFrees, mem_append] at hp
    rcases hp with hp | hp
    · exact hpolicy p hp
    · split at hp
      · cases hp
      · cases hp
      · next he => exact ih ((evaluatePolicy_keeps he).freeable.trans hfree) p hp

theorem evaluationFrees_ok (hfree : ctx.fieldFilterFreeable = true) :
    ∀ p ∈ evaluationFrees M V h s eng now ctx, p.Ok := by
  unfold evaluationFrees
  split
  · simp
  · exact loopFrees_ok hfree

/-! ## §5 Lengths -/

section Words

variable {m : Block} {off size a : Nat} {s : Bytes}

theorem leNat_strlcpy_eq_zero_iff (hoff : off ≤ a) (hsize : a + 8 ≤ off + size) :
    (m.strlcpy off size s).leNat a 8 = 0 ↔ (cstr s).length ≤ a - off := by
  have hbyte : ∀ i < 8, (m.strlcpy off size s) (a + i) =
      (CMem.strlcpy size s)[a + i - off]?.getD 0 := fun i hi =>
    Block.strlcpy_apply_of_mem (by omega) (by omega)
  have hlen : (CMem.strlcpy size s).length = min (size - 1) (cstr s).length := by
    simp [CMem.strlcpy]
  rw [Block.leNat_eq_zero_iff]
  constructor
  · intro hzero
    by_contra hlong
    have hlt : a + 0 - off < (CMem.strlcpy size s).length := by
      rw [hlen]
      omega
    have h0 := hzero 0 (by decide)
    rw [hbyte 0 (by decide), getElem?_eq_getElem hlt, getD_some] at h0
    exact not_mem_strlcpy size s (h0 ▸ getElem_mem hlt)
  · intro hshort i hi
    rw [hbyte i hi, getElem?_eq_none (by rw [hlen]; omega)]
    rfl

theorem leNat_strlcpy_outside (hout : a + 8 ≤ off ∨ off + size ≤ a) :
    (m.strlcpy off size s).leNat a 8 = m.leNat a 8 :=
  Block.leNat_congr fun _ _ _ => Block.strlcpy_apply_of_not_mem (by omega)

theorem leNat_copyOpt_outside {o : Option Bytes} (hout : a + 8 ≤ off) :
    (CheckRequest.copyOpt m off size o).leNat a 8 = m.leNat a 8 := by
  cases o with
  | none => rfl
  | some s => exact leNat_strlcpy_outside (.inl hout)

theorem leNat_putLe_outside {v : Nat} (hout : off + 8 ≤ a) : (m.putLe off 8 v).leNat a 8 =
    m.leNat a 8 :=
  Block.leNat_congr fun _ _ _ => Block.putLe_apply_of_not_mem (by omega)

theorem leNat_zero : Block.zero.leNat a 8 = 0 :=
  Block.leNat_eq_zero_iff.mpr fun _ _ => rfl

end Words

/-- What `eval_context_destroy` frees may be freed. -/
def EvalContext.Clear (ctx : EvalContext) : Prop :=
  (ctx.record = 0 ∨ ctx.recordOwned = true) ∧ ctx.fieldFilterFreeable = true

/-- The texts that do not reach the pointers of the data member. -/
def CheckRequest.Short : CheckRequest → Prop
  | .function code => (cstr code).length ≤ 64
  | .api _ path => (cstr path).length ≤ 56
  | .data _ _ => True
  | .rbac _ => True
  | .location _ country => ∀ c, country = some c → cstr c = []
  | .lbac labels _ => (cstr labels).length ≤ 64
  | .abac subject _ _ => ∀ s, subject = some s → (cstr s).length ≤ 64

theorem clear_context_iff : (req.context user).Clear ↔
    (req.params.leNat 64 8 = 0 ∨ req.recordOwned = true) ∧ req.params.leNat 80 8 = 0 := by
  simp [EvalContext.Clear, EvalContext.record, EvalContext.fieldFilterFreeable,
    EvalContext.fieldFilterPtr, EvalContext.wordAt, context, evalContextInit]

theorem short_iff_clear (req : CheckRequest) (user : User) :
    req.Short ↔ (req.context user).Clear := by
  -- a text that ends before byte 64 ends before byte 80
  have hle : ∀ {s : Bytes} {n : Nat}, (cstr s).length ≤ n → (cstr s).length ≤ n + 16 :=
    fun h => by omega
  rw [clear_context_iff]
  cases req with
  | function code =>
      simp +contextual [Short, params, leNat_strlcpy_eq_zero_iff, recordOwned, @hle _ 64]
  | api method path =>
      simp +contextual [Short, params, leNat_strlcpy_eq_zero_iff, recordOwned, @hle _ 56]
  | data resourceType record =>
    cases record with
    | none => simp [Short, params, leNat_strlcpy_outside, leNat_zero]
    | some r =>
        simp [Short, params, leNat_putLe_outside, leNat_strlcpy_outside, leNat_zero, recordOwned]
  | rbac roleName => simp [Short, params, leNat_strlcpy_outside, leNat_zero]
  | location ip country =>
    cases country with
    | none => simp [Short, params, copyOpt, leNat_strlcpy_outside, leNat_zero]
    | some c =>
        simp [Short, params, copyOpt, leNat_strlcpy_outside, leNat_strlcpy_eq_zero_iff, leNat_zero,
        recordOwned]
  | lbac labels label =>
    simp +contextual [Short, params, leNat_strlcpy_outside, leNat_strlcpy_eq_zero_iff, recordOwned,
      @hle _ 64]
  | abac subject resource action =>
    have hword : ∀ a, a + 8 ≤ 2048 → (abac subject resource action).params.leNat a 8 =
        (copyOpt Block.zero 0 2048 subject).leNat a 8 := fun a ha =>
      (leNat_copyOpt_outside (by omega)).trans (leNat_copyOpt_outside ha)
    rw [hword 64 (by decide), hword 80 (by decide)]
    cases subject with
    | none => simp [Short, copyOpt, leNat_zero]
    | some t => simp +contextual [Short, copyOpt, leNat_strlcpy_eq_zero_iff, recordOwned, @hle _ 64]

/-- A text that leaves the record pointer alone leaves the filter alone. -/
theorem clear_of_record (req : CheckRequest) (user : User)
    (hrecord : (req.context user).record = 0 ∨ (req.context user).recordOwned = true) :
    (req.context user).Clear := by
  rw [← short_iff_clear]
  change req.params.leNat 64 8 = 0 ∨ req.recordOwned = true at hrecord
  cases req with
  | data | rbac => trivial
  | function code => simpa [Short, params, leNat_strlcpy_eq_zero_iff, recordOwned] using hrecord
  | api method path => simpa [Short, params, leNat_strlcpy_eq_zero_iff, recordOwned] using hrecord
  | location ip country =>
    cases country with
    | none => simp [Short]
    | some c =>
      simpa [Short, params, copyOpt, leNat_strlcpy_outside, leNat_strlcpy_eq_zero_iff,
        recordOwned] using hrecord
  | lbac labels label =>
    simpa [Short, params, leNat_strlcpy_outside, leNat_strlcpy_eq_zero_iff, recordOwned]
      using hrecord
  | abac subject resource action =>
    cases subject with
    | none => simp [Short]
    | some t =>
      rw [params, leNat_copyOpt_outside (by decide), leNat_copyOpt_outside (by decide)] at hrecord
      simpa [Short, copyOpt, leNat_strlcpy_eq_zero_iff, recordOwned] using hrecord

/-! ## §6 Ownership -/

section Ownership

variable {M : StrayReads} {V : Vendor} {h : Heap} {s : Store} {eng : Engine} {now : UInt64}

/-- The evaluation has freed nothing wrong, and does not come back, or comes back to code that
does not get to free anything. -/
def NeverFreed (M : StrayReads) (V : Vendor) (h : Heap) (s : Store) (eng : Engine) (now : UInt64)
    (ctx : EvalContext) (stops : EvalContext → Prop) : Prop :=
  (∀ p ∈ evaluationFrees M V h s eng now ctx, p.Ok) ∧
    ∀ out, evaluateInternal V h s eng now ctx = some out → stops out.2.1

/-- After an evaluation that came back, the pointers freed at the end are fine if they were, or
if the process stops before. -/
theorem frees_ok_iff {final : EvalContext → List FreedPtr} {Fine : Prop}
    {stops : EvalContext → Prop} (hfree : Fine → ctx.fieldFilterFreeable = true)
    (hfinal : ∀ ctx', KeepsPtrs ctx ctx' → ((∀ p ∈ final ctx', p.Ok) ↔ Fine ∨ stops ctx')) :
    (∀ p ∈ evaluationFrees M V h s eng now ctx ++
        (match evaluateInternal V h s eng now ctx with
          | none => []
          | some (_, ctx', _) => final ctx'), p.Ok) ↔
      Fine ∨ NeverFreed M V h s eng now ctx stops := by
  simp only [forall_mem_append, NeverFreed]
  cases heval : evaluateInternal V h s eng now ctx with
  | none =>
    constructor
    · exact fun hall => .inr ⟨hall.1, nofun⟩
    · rintro (hfine | hnever)
      · exact ⟨evaluationFrees_ok (hfree hfine), forall_mem_nil _⟩
      · exact ⟨hnever.1, forall_mem_nil _⟩
  | some out =>
    have hfin := hfinal out.2.1 (evaluateInternal_keeps heval)
    constructor
    · intro hall
      rcases hfin.mp hall.2 with hfine | hstops
      · exact .inl hfine
      · exact .inr ⟨hall.1, fun _ heq => Option.some.inj heq ▸ hstops⟩
    · rintro (hfine | hnever)
      · exact ⟨evaluationFrees_ok (hfree hfine), hfin.mpr (.inl hfine)⟩
      · exact ⟨hnever.1, hfin.mpr (.inr (hnever.2 out rfl))⟩

theorem KeepsPtrs.clear_iff (hkeep : KeepsPtrs ctx ctx') : ctx'.Clear ↔ ctx.Clear := by
  rw [EvalContext.Clear, hkeep.record, hkeep.owned, hkeep.freeable]
  rfl

theorem finalFrees_ok_iff {user : User} {req : CheckRequest}
    (hkeep : KeepsPtrs (req.context user) ctx') :
    (∀ p ∈ req.finalFrees M ctx', p.Ok) ↔ (req.context user).Clear ∨ False := by
  -- the record is freed first, and the filter is fine if the record is
  have hclear : ctx'.record = 0 ∨ ctx'.recordOwned = true → (req.context user).Clear := by
    rw [hkeep.record, hkeep.owned]
    exact clear_of_record req user
  rw [or_false]
  constructor
  · intro hall
    refine hclear ?_
    cases req with
    | data => exact hall _ mem_cons_self
    | _ => exact hall ⟨ctx'.record, ctx'.recordOwned⟩ mem_cons_self
  · intro hfine
    obtain ⟨hrecord, hfilter⟩ := hkeep.clear_iff.mpr hfine
    cases req with
    | data => exact forall_mem_singleton.mpr hrecord
    | _ => exact forall_mem_cons.mpr ⟨hrecord, (filterFree_ok_iff M ctx').mpr (.inl hfilter)⟩

/-- The evaluation of a check does not come back, and has freed nothing wrong until then. -/
def CheckRequest.NeverDestroyed (M : StrayReads) (V : Vendor) (h : Heap) (s : Store) (eng : Engine)
    (now : UInt64) (user : User) (req : CheckRequest) : Prop :=
  NeverFreed M V (req.heap h) s eng now (req.context user) fun _ => False

theorem checkFrees_ok_iff (user : User) (req : CheckRequest) :
    (∀ p ∈ checkFrees M V h s eng now user req, p.Ok) ↔
      req.Short ∨ req.NeverDestroyed M V h s eng now user := by
  rw [short_iff_clear req user]
  exact frees_ok_iff And.right fun _ => finalFrees_ok_iff

/-- The generic handler's texts leave both pointers NULL. -/
def GenericCheck.NullPtrs (g : GenericCheck) : Prop :=
  g.params.leNat 64 8 = 0 ∧ g.params.leNat 80 8 = 0

/-- The generic handler does not get to its end, and has freed nothing wrong until then: the
evaluation does not come back, or it stores no list of fields and the texts have put a number
of names and a list of them into the context that cannot be printed. -/
def GenericCheck.NeverDestroyed (M : StrayReads) (V : Vendor) (h : Heap) (s : Store) (eng : Engine)
    (now : UInt64) (user : User) (g : GenericCheck) : Prop :=
  NeverFreed M V (g.heap h) s eng now (g.context user) fun ctx =>
    ctx.fieldFilter = none ∧ g.params.leNat 88 8 ≠ 0 ∧
      (g.params.leNat 80 8 = 0 ∨ M.printed (g.params.leNat 80 8) (g.params.leNat 88 8) = false)

/-- The names are not printed exactly if no list was stored and the texts stand in their
place. -/
theorem namesPrinted_eq_false_iff {user : User} {g : GenericCheck}
    (hkeep : KeepsPtrs (g.context user) ctx') :
    ctx'.namesPrinted M = false ↔ ctx'.fieldFilter = none ∧ g.params.leNat 88 8 ≠ 0 ∧
      (g.params.leNat 80 8 = 0 ∨ M.printed (g.params.leNat 80 8) (g.params.leNat 88 8) =
        false) := by
  unfold EvalContext.namesPrinted
  rcases hkeep.filter with hown | rfl
  · have hne : ctx'.fieldFilter ≠ none := fun h0 => by simp [h0] at hown
    simp [hown, hne]
  · have hnone : (g.context user).fieldFilter = none := rfl
    have hptr : (g.context user).fieldFilterPtr = g.params.leNat 80 8 := rfl
    have hcount : (g.context user).fieldFilterCount = g.params.leNat 88 8 := rfl
    simp [hnone, hptr, hcount, imp_iff_not_or]

/-- Entries that were printed are there to be freed. -/
theorem freeable_of_printed (hprinted : ctx.namesPrinted M = true) (hfault :
    ctx.fieldFilterCount ≠ 0 ∧ M.freed ctx.fieldFilterPtr ctx.fieldFilterCount = false) :
    ctx.fieldFilterFreeable = true := by
  have hread := M.freed_of_printed ctx.fieldFilterPtr ctx.fieldFilterCount
  simp only [EvalContext.namesPrinted, Bool.or_eq_true, beq_iff_eq, Bool.and_eq_true] at hprinted
  rcases hprinted with (hcount | hown) | ⟨-, hprinted⟩
  · exact absurd hcount hfault.1
  · simp [EvalContext.fieldFilterFreeable, hown]
  · exact absurd (hread hprinted) (by simp [hfault.2])

theorem handlerFrees_ok_iff (user : User) (g : GenericCheck) :
    (∀ p ∈ g.handlerFrees M V h s eng now user, p.Ok) ↔
      g.NullPtrs ∨ g.NeverDestroyed M V h s eng now user := by
  have hfreeable : (g.context user).fieldFilterFreeable = true ↔ g.params.leNat 80 8 = 0 := by
    show ((g.params.leNat 80 8 == 0) || false) = true ↔ _
    rw [Bool.or_false, beq_iff_eq]
  refine frees_ok_iff (fun hnull => hfreeable.mpr hnull.2) fun ctx' hkeep => ?_
  rw [← namesPrinted_eq_false_iff hkeep]
  cases hprinted : ctx'.namesPrinted M with
  | false => simp
  | true =>
    have hrecord : ctx'.record = g.params.leNat 64 8 := hkeep.record
    have howned : ctx'.recordOwned = false := hkeep.owned
    rw [if_pos rfl, forall_mem_append, forall_mem_cons, filterFree_ok_iff,
      or_iff_left_of_imp (freeable_of_printed hprinted), hkeep.freeable, hfreeable, hrecord, howned,
      GenericCheck.NullPtrs]
    by_cases h0 : g.params.leNat 64 8 = 0
    · simp [h0, FreedPtr.Ok]
    · simp [h0, FreedPtr.Ok]

/-- **Memory of the evaluation context**: for every check of every strategy and for the
generic handler, everything passed to `free` is NULL or was allocated for the context and
not freed before, exactly under these conditions. -/
theorem contextFrees_ok_iff (M : StrayReads) (V : Vendor) (h : Heap) (s : Store) (eng : Engine)
    (now : UInt64) (user : User) :
    (∀ req : CheckRequest, (∀ p ∈ checkFrees M V h s eng now user req, p.Ok) ↔
      req.Short ∨ req.NeverDestroyed M V h s eng now user) ∧
    (∀ g : GenericCheck, (∀ p ∈ g.handlerFrees M V h s eng now user, p.Ok) ↔
      g.NullPtrs ∨ g.NeverDestroyed M V h s eng now user) :=
  ⟨checkFrees_ok_iff user, handlerFrees_ok_iff user⟩

/-- A function code of 65 bytes. -/
def longCode : Bytes := List.replicate 65 97

/-- `{"resource_type":"order","record":"x"}` for the generic handler. -/
def recordCheck : GenericCheck where
  functionCode := none
  apiMethod := none
  apiPath := none
  resourceType := some (lit "order")
  record := some (lit "x", .secondPage)
  roleName := none
  sourceIp := none
  lbacUserLabels := none
  lbacResourceLabel := none
  abacSubjectAttrs := none
  abacResourceAttrs := none
  abacAction := none
  environment := none

/-- Nothing is mapped but what the check itself puts there. -/
def plainHeap : Heap where
  load := fun _ => none
  filterAddr := .firstPage

/-- A user without policies. -/
def someone : User where
  id := 1
  username := lit "someone"
  phone := []
  status := .active

/-- The last byte of the code is freed as a pointer, and the handler frees a pointer into the
request twice. -/
theorem contextFrees_foreign :
    (∀ M, (checkFrees M (.ofTable []) plainHeap memOpen permEngineCreate 0 someone
      (.function longCode)).map (fun p => (p.word, p.own)) = [(97, false)]) ∧
    ∀ M, (recordCheck.handlerFrees M (.ofTable []) plainHeap memOpen permEngineCreate 0
      someone).map (fun p => (p.word, p.own)) = [(8192, false), (8192, false)] := by
  constructor
  · intro M
    rfl
  · intro M
    rfl

end Ownership

end SsoSystem
