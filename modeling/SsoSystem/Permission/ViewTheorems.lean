/-
SsoSystem.Permission.ViewTheorems — what a strategy can see of a context, and
that evaluating one policy never changes what the next one sees.

The data strategy writes a field filter pointer and its count into bytes 80
to 95 of the parameter union, while the other strategies read strings that
start at bytes 0, 8, 64, 256 and 2048. The write is invisible to all of them
(`sameView_of_dataEvaluate`), since every string that started earlier ends before.
-/
import SsoSystem.Strategy.Dispatch

namespace SsoSystem

open CMem Option EvalContext

/-- Two contexts show the strategies the same, and own the same: equal in
everything a strategy or `destroy` reads. -/
structure SameView (ctx ctx' : EvalContext) : Prop where
  userId : ctx.userId = ctx'.userId
  text : ctx.strAt 0 = ctx'.strAt 0
  path : ctx.strAt 8 = ctx'.strAt 8
  record : ctx.wordAt 64 = ctx'.wordAt 64
  geo : ctx.strAt 64 = ctx'.strAt 64
  label : ctx.strAt 256 = ctx'.strAt 256
  resourceAttrs : ctx.strAt 2048 = ctx'.strAt 2048
  environment : ctx.environment = ctx'.environment
  freeable : ctx.fieldFilterFreeable = ctx'.fieldFilterFreeable
  owned : ctx.recordOwned = ctx'.recordOwned

theorem SameView.refl (ctx : EvalContext) : SameView ctx ctx :=
  ⟨rfl, rfl, rfl, rfl, rfl, rfl, rfl, rfl, rfl, rfl⟩

theorem SameView.trans {a b c : EvalContext} (h : SameView a b) (h' : SameView b c) :
    SameView a c :=
  ⟨h.userId.trans h'.userId, h.text.trans h'.text, h.path.trans h'.path,
    h.record.trans h'.record, h.geo.trans h'.geo, h.label.trans h'.label,
    h.resourceAttrs.trans h'.resourceAttrs, h.environment.trans h'.environment,
    h.freeable.trans h'.freeable, h.owned.trans h'.owned⟩

/-- What is freed at the end is the same. -/
theorem SameView.destroy_eq {ctx ctx' : EvalContext} (hv : SameView ctx ctx') :
    ctx.destroy = ctx'.destroy := by
  unfold destroy EvalContext.record
  rw [hv.record, hv.owned, hv.freeable]

/-! ## §1 Strategies depend on the view only -/

section Congr

variable {ctx ctx' : EvalContext} (hv : SameView ctx ctx')

include hv

/-- The function strategy reads its parameters as strings. -/
theorem funcEvaluate_congr (items : List FuncItem) :
    funcEvaluate items ctx = funcEvaluate items ctx' := by
  unfold funcEvaluate functionCode
  rw [hv.text]

/-- The API strategy, likewise. -/
theorem apiEvaluate_congr (items : List ApiItem) :
    apiEvaluate items ctx = apiEvaluate items ctx' := by
  unfold apiEvaluate httpMethod requestPath
  rw [hv.text, hv.path]

theorem lbacEvaluate_congr (items : List LbacItem) :
    lbacEvaluate items ctx = lbacEvaluate items ctx' := by
  unfold lbacEvaluate userLabels resourceLabel
  rw [hv.text, hv.label]

theorem locEvaluate_congr (items : List LocItem) :
    locEvaluate items ctx = locEvaluate items ctx' := by
  have hm : locMatches ctx = locMatches ctx' := by
    funext i
    unfold locMatches sourceIp geoCountry
    rw [hv.text, hv.geo]
  unfold locEvaluate sourceIp
  rw [hv.text, hm]

variable (V : Vendor) (h : Heap) (s : Store) (t : StrategyType)

/-- The role strategy reads the user and the role name. -/
theorem rbacEvaluate_congr (items : List RbacItem) :
    rbacEvaluate s items ctx = rbacEvaluate s items ctx' := by
  unfold rbacEvaluate roleName
  rw [hv.text, hv.userId]

theorem abacEvaluate_congr (rule : AbacRule) :
    abacEvaluate V rule ctx = abacEvaluate V rule ctx' := by
  have hroot : abacRoot V ctx = abacRoot V ctx' := by
    funext src
    cases src with
    | subject => exact congrArg (attrRoot V) hv.text
    | resource => exact congrArg (attrRoot V) hv.resourceAttrs
    | environment => exact congrArg (fun e => attrRoot V (cstr e)) hv.environment
  have hc : abacConditionHolds V ctx = abacConditionHolds V ctx' := by
    funext c
    unfold abacConditionHolds
    rw [hroot]
  unfold abacEvaluate
  rw [hc]

/-- Whether the filter can be built, not what it is. -/
theorem dataFilter_isSome_congr (rule : DataRule) :
    (dataFilter h rule ctx).isSome = (dataFilter h rule ctx').isSome := by
  unfold dataFilter
  rw [hv.freeable]
  split
  · rfl
  · split
    · cases rule.allowedFields.mapM id <;> rfl
    · rfl

/-- The data strategy's verdict; it also writes into the context. -/
theorem dataEvaluate_congr (rule : DataRule) :
    (dataEvaluate V h rule ctx).map Prod.fst = (dataEvaluate V h rule ctx').map Prod.fst := by
  have hfil := dataFilter_isSome_congr hv h rule
  unfold dataEvaluate resourceType EvalContext.record
  rw [hv.text, hv.record]
  by_cases ht : ctx'.strAt 0 ≠ rule.resourceType
  · rw [if_pos ht, if_pos ht]
    rfl
  · rw [if_neg ht, if_neg ht]
    cases dataRecordCheck V h rule (ctx'.wordAt 64) with
    | none => rfl
    | some e =>
      cases e with
      | ok =>
        cases hc : dataFilter h rule ctx <;> cases hc' : dataFilter h rule ctx' <;> simp_all
      | _ => rfl

/-- Two contexts that look the same get the same verdict from every strategy. -/
theorem evaluateCompiled_congr
    (c : Compiled) :
    (evaluateCompiled V h s ctx t c).map Prod.fst =
      (evaluateCompiled V h s ctx' t c).map Prod.fst := by
  unfold evaluateCompiled
  split
  · simp only [map_some, funcEvaluate_congr hv]
  · simp only [map_some, apiEvaluate_congr hv]
  · exact dataEvaluate_congr hv V h _
  · rw [rbacEvaluate_congr hv]
    simp only [map_map]
    rfl
  · simp only [map_some, locEvaluate_congr hv]
  · simp only [map_some, abacEvaluate_congr hv]
  · simp only [map_some, lbacEvaluate_congr hv]
  · rfl

end Congr

/-! ## §2 The data strategy's write is out of sight -/

variable {ctx : EvalContext} {h : Heap} {filter : List Bytes} {V : Vendor} {rule : DataRule}

/-- The filter is 16 bytes of the parameter union, from offset 80 on. -/
theorem EvalContext.setFieldFilter_params_of_not_mem {i : Nat} (hi : i < 80 ∨ 96 ≤ i) :
    (ctx.setFieldFilter h filter).params i = ctx.params i := by
  show ((ctx.params.putLe 80 8 h.filterAddr.val).putLe 88 8 filter.length) i = ctx.params i
  rw [Block.putLe_apply_of_not_mem (by omega), Block.putLe_apply_of_not_mem (by omega)]

/-- A string that ends before them is not touched. -/
theorem EvalContext.strAt_setFieldFilter_of_zero {off k : Nat} (hz : ctx.params k = 0)
    (hoff : off ≤ k) (hk : k < 80) : (ctx.setFieldFilter h filter).strAt off = ctx.strAt off :=
  (Block.cstrFrom_congr hz hoff fun _ _ hik =>
    (setFieldFilter_params_of_not_mem (by omega)).symm).symm

/-- Nor is one that starts behind them. -/
theorem EvalContext.strAt_setFieldFilter_of_le {off : Nat} (hoff : 96 ≤ off) :
    (ctx.setFieldFilter h filter).strAt off = ctx.strAt off :=
  Block.cstrFrom_congr_range fun _ hi _ => setFieldFilter_params_of_not_mem (by omega)

/-- A record pointer that was followed, or is NULL, has a zero byte. -/
theorem exists_zero_of_dataRecordCheck {e : SsoError}
    (hd : dataRecordCheck V h rule ctx.record = some e) :
    ∃ k, 64 ≤ k ∧ k < 72 ∧ ctx.params k = 0 := by
  have hlt : ctx.record < 256 ^ 7 := by
    unfold dataRecordCheck at hd
    split at hd
    · next h0 => rw [h0]; decide
    · cases hr : h.readStr ctx.record with
      | none => simp [hr] at hd
      | some s =>
        have hcanon := Heap.lt_of_readStr hr
        omega
  exact ⟨71, by omega, by omega, Block.eq_zero_of_leNat_lt hlt⟩

/-- A resource type below 63 bytes ends in time for this. -/
theorem sameView_setFieldFilter (htype : ctx.resourceType = rule.resourceType)
    (hlen : rule.resourceType.length < 63) (hrec : dataRecordCheck V h rule ctx.record = some .ok)
    (hfree : ctx.fieldFilterFreeable) : SameView (ctx.setFieldFilter h filter) ctx := by
  obtain ⟨k, hk64, hk72, hkz⟩ := exists_zero_of_dataRecordCheck hrec
  have hlen0 : (ctx.strAt 0).length < 63 := by
    show ctx.resourceType.length < 63
    rw [htype]; exact hlen
  have hz0 : ctx.params (ctx.strAt 0).length = 0 := by
    have hlt : (ctx.params.cstrFrom 0 (paramsSize - 0)).length < paramsSize - 0 := by
      have hsize : paramsSize - 0 = 4160 := rfl
      have hlen0' : (ctx.params.cstrFrom 0 (paramsSize - 0)).length < 63 := hlen0
      omega
    have hz := Block.eq_zero_of_length_cstrFrom_lt hlt
    rwa [Nat.zero_add] at hz
  have hword : (ctx.setFieldFilter h filter).wordAt 64 = ctx.wordAt 64 :=
    Block.leNat_congr fun i _ hi => setFieldFilter_params_of_not_mem (by omega)
  have hfree' : (ctx.setFieldFilter h filter).fieldFilterFreeable = ctx.fieldFilterFreeable := by
    rw [hfree]
    simp [fieldFilterFreeable, setFieldFilter]
  exact
    { userId := rfl
      text := strAt_setFieldFilter_of_zero hz0 (Nat.zero_le _) (by omega)
      path := strAt_setFieldFilter_of_zero hkz (by omega) (by omega)
      record := hword
      geo := strAt_setFieldFilter_of_zero hkz hk64 (by omega)
      label := strAt_setFieldFilter_of_le (by omega)
      resourceAttrs := strAt_setFieldFilter_of_le (by omega)
      environment := rfl
      freeable := hfree'
      owned := rfl }

variable {rules : Bytes} {ctx' : EvalContext} {r : StrategyResult} {c : Compiled} {s : Store}
  {t : StrategyType}

/-- The compiler keeps the resource type that short. -/
theorem length_resourceType_lt_of_dataCompile (hc : dataCompile V rules = some rule) :
    rule.resourceType.length < 63 := by
  obtain ⟨root, -, rfl⟩ := map_eq_some_iff.mp hc
  have hle := length_strlcpy_le 63
    ((Json.getStr (Json.objGet (some root) (lit "resource_type"))).getD [])
  simp only [Json.copyStr]
  omega

/-- All `data_evaluate` does to the context: it leaves it, or matches and puts the list of the
rule in place. -/
theorem dataEvaluate_cases (he : dataEvaluate V h rule ctx = some (r, ctx')) :
    (r.1 ≠ .ok ∧ ctx' = ctx) ∨ r.1 = .ok ∧ ctx.resourceType = rule.resourceType ∧
      dataRecordCheck V h rule ctx.record = some .ok ∧
      (rule.allowedFields = [] ∧ ctx' = ctx ∨ rule.allowedFields ≠ [] ∧
        ctx.fieldFilterFreeable = true ∧
        ∃ fields, rule.allowedFields.mapM id = some fields ∧
          ctx' = ctx.setFieldFilter h fields) := by
  unfold dataEvaluate at he
  split at he
  · cases he
    exact .inl ⟨nofun, rfl⟩
  · next htype =>
    split at he
    · cases he
    · next hrec =>
      obtain ⟨ctx'', hfilter, hpair⟩ := map_eq_some_iff.mp he
      cases hpair
      refine .inr ⟨rfl, not_not.mp htype, hrec, ?_⟩
      unfold dataFilter at hfilter
      split at hfilter
      · next hnil =>
        cases hfilter
        exact .inl ⟨hnil, rfl⟩
      · next hne =>
        split at hfilter
        · next hfree =>
          split at hfilter
          · cases hfilter
          · next fields hfields =>
            cases hfilter
            exact .inr ⟨hne, hfree, fields, hfields, rfl⟩
        · cases hfilter
    · next e hne _ =>
      cases he
      exact .inl ⟨hne, rfl⟩

/-- Only the data strategy touches the context. -/
theorem evaluateCompiled_cases (he : evaluateCompiled V h s ctx t c = some (r, ctx')) :
    ((∀ rule, c ≠ .data rule) ∧ ctx' = ctx) ∨
      ∃ rule, c = .data rule ∧ dataEvaluate V h rule ctx = some (r, ctx') := by
  unfold evaluateCompiled at he
  split at he
  case h_3 rule => exact .inr ⟨rule, rfl, he⟩
  case h_4 =>
    obtain ⟨_, -, hpair⟩ := map_eq_some_iff.mp he
    exact .inl ⟨nofun, (Prod.mk.inj hpair).2.symm⟩
  case h_8 => cases he
  all_goals
    cases he
    exact .inl ⟨nofun, rfl⟩

/-- So later policies see the same request after the data strategy wrote its filter. -/
theorem sameView_of_dataEvaluate
    (hlen : rule.resourceType.length < 63) (he : dataEvaluate V h rule ctx = some (r, ctx')) :
    SameView ctx' ctx := by
  rcases dataEvaluate_cases he with ⟨-, rfl⟩ | ⟨-, htype, hrec, ⟨-, rfl⟩ | ⟨-, hfree, _, -, rfl⟩⟩
  · exact .refl _
  · exact .refl _
  · exact sameView_setFieldFilter htype hlen hrec hfree

/-- The other strategies write nothing. -/
theorem sameView_of_evaluateCompiled (hc : compileRules V t rules = some c)
    (he : evaluateCompiled V h s ctx t c = some (r, ctx')) : SameView ctx' ctx := by
  rcases evaluateCompiled_cases he with ⟨-, rfl⟩ | ⟨rule, rfl, hdata⟩
  · exact .refl _
  · cases t <;> simp only [compileRules, map_eq_some_iff, reduceCtorEq, and_false,
      exists_false, Compiled.data.injEq, exists_eq_right] at hc
    exact sameView_of_dataEvaluate (length_resourceType_lt_of_dataCompile hc) hdata

end SsoSystem
