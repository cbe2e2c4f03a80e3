/-
SsoSystem.Strategy.Attributes — the strategies that evaluate conditions over
JSON attributes: data (strategies/data_perm.c) and attribute based
(strategies/abac_perm.c).

`dataEvaluate` is the one strategy that writes to the context: on a match it
replaces `params.data.field_filter`. It is also the one that follows a
pointer of the union, so it may fail to return: when `data.record` is not a
readable string, when the field filter it frees is not one of its own, or
when a rule lists a non-string under "allowed_fields" (`strdup(NULL)`).
-/
import SsoSystem.Strategy.Items

namespace SsoSystem

open CMem

variable (V : Vendor) (h : Heap) (rule : DataRule) (ctx : EvalContext)

/-- A condition's value or an attribute as text: strings are copied, numbers
printed with `%g`, anything else leaves the buffer alone (`none`). -/
def attrText (size : Nat) (v : Option Json) : Option Bytes :=
  match Json.getStr v with
  | some s => some (strlcpy size s)
  | none => (Json.getNum v).map fun n => strlcpy size (V.fmtG n)

/-! ## §1 Data -/

/-- `data_condition_t`. -/
structure DataCondition where
  field : Bytes
  op : Bytes
  expected : Bytes
  deriving DecidableEq, Repr

/-- `data_compiled_rule_t`; a NULL entry of `allowed_fields` is `none`. -/
structure DataRule where
  resourceType : Bytes
  conditions : List DataCondition
  allowedFields : List (Option Bytes)
  isAllow : Bool
  deriving DecidableEq, Repr

def dataCondition (item : Json) : DataCondition where
  field := Json.copyStr 63 (Json.objGet (some item) (lit "field"))
  op := Json.copyStr 15 (Json.objGet (some item) (lit "op"))
  expected := (attrText V 255 (Json.objGet (some item) (lit "value"))).getD []

/-- `data_compile`. -/
def dataCompile (rules : Bytes) : Option DataRule :=
  (V.yyjsonRead (cstr rules)).map fun root =>
    { resourceType := Json.copyStr 63 (Json.objGet (some root) (lit "resource_type"))
      conditions := ((Json.getArr (Json.objGet (some root) (lit "conditions"))).getD []).map
        (dataCondition V)
      allowedFields := ((Json.getArr (Json.objGet (some root) (lit "allowed_fields"))).getD []).map
        fun f => Json.getStr (some f)
      isAllow := effectNotDeny (Json.objGet (some root) (lit "effect")) }

/-- `apply_data_op`. -/
def applyDataOp (op actual expected : Bytes) : Bool :=
  if op = lit "eq" then actual == expected
  else if op = lit "neq" then actual != expected
  else if op = lit "gt" then (V.strtod expected).lt (V.strtod actual)
  else if op = lit "lt" then (V.strtod actual).lt (V.strtod expected)
  else false

/-- One condition against the record: the field must be a string or a number. -/
def dataConditionHolds (record : Json) (c : DataCondition) : Bool :=
  match attrText V 255 (Json.objGet (some record) c.field) with
  | some actual => applyDataOp V c.op actual c.expected
  | none => false

/-- The conditions of `data_evaluate` against the record behind the pointer:
the error to return, or `ok`; `none` is an invalid dereference. -/
def dataRecordCheck (record : Nat) : Option SsoError :=
  if record = 0 then some .ok
  else
    match h.readStr record with
    | none => none
    | some text =>
      match V.yyjsonRead text with
      | none => some .ruleInvalid
      | some root =>
        if rule.conditions.all (dataConditionHolds V root) then some .ok else some .notFound

/-- The field filter part of `data_evaluate`. -/
def dataFilter : Option EvalContext :=
  if rule.allowedFields = [] then some ctx
  else if ctx.fieldFilterFreeable then
    match rule.allowedFields.mapM id with
    | none => none
    | some fields => some (ctx.setFieldFilter h fields)
  else none

/-- `data_evaluate`. -/
def dataEvaluate : Option (StrategyResult × EvalContext) :=
  if ctx.resourceType ≠ rule.resourceType then some ((.notFound, false), ctx)
  else
    match dataRecordCheck V h rule ctx.record with
    | none => none
    | some .ok => (dataFilter h rule ctx).map fun ctx' => ((.ok, rule.isAllow), ctx')
    | some e => some ((e, false), ctx)

/-! ## §2 Attribute based -/

inductive AbacSource where
  | subject | resource | environment
  deriving DecidableEq, Repr

/-- `abac_condition_t`. -/
structure AbacCondition where
  attrName : Bytes
  source : AbacSource
  op : Bytes
  expectedValue : Bytes
  deriving DecidableEq, Repr

/-- `abac_compiled_rule_t`. -/
structure AbacRule where
  conditions : List AbacCondition
  isOrLogic : Bool
  isAllowEffect : Bool
  deriving DecidableEq, Repr

def abacSource (src : Option Json) : AbacSource :=
  match Json.getStr src with
  | some s =>
    if s = lit "resource" then .resource
    else if s = lit "environment" then .environment
    else .subject
  | none => .subject

def abacCondition (item : Json) : AbacCondition where
  attrName := Json.copyStr 63 (Json.objGet (some item) (lit "attr"))
  source := abacSource (Json.objGet (some item) (lit "source"))
  op := match Json.getStr (Json.objGet (some item) (lit "op")) with
    | some o => strlcpy 15 o
    | none => lit "eq"
  expectedValue := (attrText V 255 (Json.objGet (some item) (lit "value"))).getD []

/-- `abac_compile`. -/
def abacCompile (rules : Bytes) : Option AbacRule :=
  match V.yyjsonRead (cstr rules) with
  | none => none
  | some root =>
    (Json.getArr (Json.objGet (some root) (lit "conditions"))).map fun items =>
      { conditions := items.map (abacCondition V)
        isOrLogic := Json.getStr (Json.objGet (some root) (lit "logic")) == some (lit "or")
        isAllowEffect := effectNotDeny (Json.objGet (some root) (lit "effect")) }

/-- `parse_number`. -/
def parseNumber (s : Bytes) : Dbl := if s = [] then .fin 0 else V.strtod s

/-- The tokens of `strtok(list, ",")`. -/
def strtokComma (list : Bytes) : List Bytes :=
  (list.splitOn comma).filter fun t => !t.isEmpty

/-- Leading and trailing spaces off a token, as the "in" operator strips them. -/
def trimSpaces (t : Bytes) : Bytes :=
  ((t.dropWhile (· = space)).reverse.dropWhile (· = space)).reverse

/-- `apply_operator`. -/
def applyOperator (op actual expected : Bytes) : Bool :=
  if op = lit "eq" then actual == expected
  else if op = lit "neq" then actual != expected
  else if op = lit "contains" then actual.tails.any fun t => expected.isPrefixOf t
  else if op = lit "in" then (strtokComma (strlcpy 1024 expected)).any fun t => actual ==
    trimSpaces t
  else if op = lit "gt" then (parseNumber V expected).lt (parseNumber V actual)
  else if op = lit "gte" then (parseNumber V expected).le (parseNumber V actual)
  else if op = lit "lt" then (parseNumber V actual).lt (parseNumber V expected)
  else if op = lit "lte" then (parseNumber V actual).le (parseNumber V expected)
  else false

/-- The root an attribute text parses to; an empty text is never parsed. -/
def attrRoot (text : Bytes) : Option Json :=
  if text = [] then none else V.yyjsonRead text

/-- The attribute set a condition looks at. -/
def abacRoot : AbacSource → Option Json
  | .subject => attrRoot V ctx.subjectAttrs
  | .resource => attrRoot V ctx.resourceAttrs
  | .environment => attrRoot V (cstr ctx.environment)

/-- One condition of `abac_evaluate`; a missing attribute does not match. -/
def abacConditionHolds (c : AbacCondition) : Bool :=
  match attrText V 512 (Json.objGet (abacRoot V ctx c.source) c.attrName) with
  | some actual => applyOperator V c.op actual c.expectedValue
  | none => false

/-- `abac_evaluate`. -/
def abacEvaluate (V : Vendor) (rule : AbacRule) (ctx : EvalContext) : StrategyResult :=
  let met :=
    if rule.isOrLogic then rule.conditions.any (abacConditionHolds V ctx)
    else rule.conditions.all (abacConditionHolds V ctx)
  if met then (.ok, rule.isAllowEffect) else (.notFound, false)

open List

/-! ## §3 What a condition means -/

theorem dropWhile_spaces {n : Nat} {t : Bytes} (h : ∀ b ∈ t.head?, b ≠ space) :
    (replicate n space ++ t).dropWhile (· = space) = t := by
  rw [dropWhile_append_of_pos (by simp)]
  cases t with
  | nil => rfl
  | cons b t => exact dropWhile_cons_of_neg (by simpa using h)

theorem exists_spaces (t : Bytes) : ∃ n, t = replicate n space ++ t.dropWhile (· = space) := by
  refine ⟨(t.takeWhile (· = space)).length, ?_⟩
  rw [← eq_replicate_of_mem
    fun b hb => by simpa using mem_takeWhile_imp hb, takeWhile_append_dropWhile]

/-- An item is a value with spaces around it. -/
theorem trimSpaces_eq_iff {t actual : Bytes} (hfirst : ∀ b ∈ actual.head?, b ≠ space)
    (hlast : ∀ b ∈ actual.getLast?, b ≠ space) (hne : actual ≠ []) :
    trimSpaces t = actual ↔ ∃ m n, t = replicate m space ++ actual ++ replicate n space := by
  constructor
  · rintro rfl
    obtain ⟨m, hm⟩ := exists_spaces t
    obtain ⟨n, hn⟩ := exists_spaces (t.dropWhile (· = space)).reverse
    have hback := congrArg reverse hn
    rw [reverse_reverse, reverse_append, reverse_replicate] at hback
    exact ⟨m, n, by rw [trimSpaces, append_assoc, ← hback, ← hm]⟩
  · rintro ⟨m, n, rfl⟩
    rw [trimSpaces, append_assoc, dropWhile_spaces, reverse_append, reverse_replicate,
      dropWhile_spaces, reverse_reverse]
    · rwa [head?_reverse]
    · obtain ⟨b, rest, rfl⟩ := exists_cons_of_ne_nil hne
      exact hfirst

/-- The loop of `abac_evaluate` from `any_matched` and `all_matched` on. -/
def abacLoop (isOrLogic : Bool) (holds : AbacCondition → Bool) (flags : Bool × Bool) :
    List AbacCondition → Bool × Bool
  | [] => flags
  | c :: rest =>
    if isOrLogic then if holds c then (true, flags.2) else abacLoop isOrLogic holds flags rest
    else if !holds c then (flags.1, false) else abacLoop isOrLogic holds flags rest

theorem abacLoop_eq (isOrLogic : Bool) (holds : AbacCondition → Bool)
    (conditions : List AbacCondition) :
    abacLoop isOrLogic holds (false, true) conditions =
      (isOrLogic && conditions.any holds, isOrLogic || conditions.all holds) := by
  induction conditions with
  | nil => cases isOrLogic <;> rfl
  | cons c conditions ih => cases isOrLogic <;> cases hc : holds c <;> simp [abacLoop, hc, ih]

/-- The "in" operator finds the value among the items, and a rule matches if all its
conditions hold, or one of them; a missing attribute does not hold. -/
theorem abac_conditions (V : Vendor) :
    (∀ list actual : Bytes, list.length ≤ 254 → (0 : UInt8) ∉ list → actual ≠ [] →
      (∀ b ∈ actual.head?, b ≠ space) → (∀ b ∈ actual.getLast?, b ≠ space) →
      (applyOperator V (lit "in") actual list = true ↔
        ∃ item ∈ list.splitOn comma, ∃ m n, item = replicate m space ++ actual ++
          replicate n space)) ∧
    ∀ rule ctx,
      let flags := abacLoop rule.isOrLogic (abacConditionHolds V ctx) (false, true) rule.conditions
      let holds := fun c => ∃ actual,
        attrText V 512 (Json.objGet (abacRoot V ctx c.source) c.attrName) = some actual ∧
        applyOperator V c.op actual c.expectedValue = true
      abacEvaluate V rule ctx =
        (if (if rule.isOrLogic then flags.1 else flags.2) then (.ok, rule.isAllowEffect)
        else (.notFound, false)) ∧ ((abacEvaluate V rule ctx).1 = .ok ↔
        if rule.isOrLogic then ∃ c ∈ rule.conditions, holds c else ∀ c ∈ rule.conditions,
          holds c) := by
  refine ⟨?_, ?_⟩
  · intro list actual hlen hnul hne hfirst hlast
    have hlist : strlcpy 1024 list = list := strlcpy_eq_self hnul (by omega)
    have hop : applyOperator V (lit "in") actual list = (strtokComma list).any fun t => actual ==
      trimSpaces t := by
      rw [← hlist, applyOperator, hlist, hlist]
      rfl
    rw [hop, strtokComma, any_filter]
    simp only [any_eq_true, Bool.and_eq_true, beq_iff_eq]
    refine exists_congr fun item => and_congr_right fun _ => ?_
    rw [← trimSpaces_eq_iff hfirst hlast hne, @eq_comm _ actual, and_iff_right_iff_imp]
    rintro rfl
    cases item with
    | nil => exact absurd rfl hne
    | cons b item => rfl
  · intro rule ctx flags holds
    have hholds : ∀ c, abacConditionHolds V ctx c = true ↔ holds c := by
      intro c
      unfold abacConditionHolds
      split <;> simp_all [holds]
    have hmet : ∀ met : Bool,
      (if met then (SsoError.ok, rule.isAllowEffect) else (.notFound, false)).1 = .ok ↔
        met = true := by
      intro met
      cases met <;> simp
    simp only [flags, abacLoop_eq, abacEvaluate, ← hholds]
    cases rule.isOrLogic <;> exact ⟨rfl, (hmet _).trans (by simp)⟩

end SsoSystem
