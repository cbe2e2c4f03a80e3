/-
SsoSystem.Permission.EffectTheorems — which effects turn into an ALLOW.

`decidingItem` names the rule item behind a strategy's answer, for all seven
strategies: the first that speaks about the request, or the whole rule for
data and ABAC. `allows_iff_deciding` is the one place where the strategies
are opened; it says that the answer is ALLOW exactly when that item's effect
does not read as a deny, and the compilers read effects in two ways.
-/
import SsoSystem.Permission.Engine

namespace SsoSystem

open CMem List Option

/-! ## §1 The deciding item -/

/-- The items of a rule text; a data or ABAC rule is its own single item. -/
def ruleItems (V : Vendor) : StrategyType → Bytes → List Json
  | .functional, text => (ruleArray V text (lit "functions")).getD []
  | .api, text => (ruleArray V text (lit "endpoints")).getD []
  | .rbac, text => (ruleArray V text (lit "roles")).getD []
  | .location, text =>
    ((ruleArray V text (lit "locations")).or (ruleArray V text (lit "allowed_ips"))).getD []
  | .lbac, text =>
    ((ruleArray V text (lit "labels")).or (ruleArray V text (lit "clearance_levels"))).getD []
  | .data, text | .abac, text => (V.yyjsonRead (cstr text)).toList
  | .other _, _ => []

section Deciding

variable (V : Vendor) (h : Heap) (s : Store) (ctx : EvalContext)

/-- Whether an item speaks about the request. -/
def itemApplies : StrategyType → Bytes → Json → Bool
  | .functional, _, item =>
    ctx.functionCode != [] && wildcardMatch (funcItem item).code ctx.functionCode
  | .api, _, item =>
    (ctx.httpMethod != [] && ctx.requestPath != []) &&
      (((apiItem item).method == lit "*" || strCaseEq (apiItem item).method ctx.httpMethod)
        && pathMatch (apiItem item).path ctx.requestPath)
  | .rbac, _, item =>
    (ctx.roleName != [] && userHasRole s ctx.userId ctx.roleName == some true) &&
      (rbacItem item).roleName == ctx.roleName
  | .location, _, item => ctx.sourceIp != [] && locMatches ctx (locItem item)
  | .lbac, _, item =>
    ((ctx.userLabels != [] && ctx.resourceLabel != []) &&
      labelInList ctx.resourceLabel ctx.userLabels) &&
      (lbacItem item).labelName == ctx.resourceLabel
  | .data, text, _ =>
    (dataCompile V text).any fun rule => (dataEvaluate V h rule ctx).any fun r => r.1.1 == .ok
  | .abac, text, _ => (abacCompile V text).any fun rule => (abacEvaluate V rule ctx).1 == .ok
  | .other _, _, _ => false

/-- The item that answers the request. -/
def decidingItem (t : StrategyType) (text : Bytes) : Option Json :=
  (ruleItems V t text).find? (itemApplies V h s ctx t text)

end Deciding

/-- The effect of a rule item. -/
def itemEffect (item : Json) : Option Json := Json.objGet (some item) (lit "effect")

/-- The effect texts a strategy's compiler takes as a deny: all but "allow" in the
functional and the role strategy, only "deny" in the others. -/
def readsAsDeny (t : StrategyType) (effect : Option Json) : Bool :=
  match Json.getStr effect with
  | none => false
  | some e => if t = .functional ∨ t = .rbac then e != lit "allow" else e == lit "deny"

variable {t : StrategyType}

theorem effectIsAllow_eq (ht : t = .functional ∨ t = .rbac)
    (effect : Option Json) : effectIsAllow effect = !readsAsDeny t effect := by
  unfold effectIsAllow readsAsDeny
  cases Json.getStr effect with
  | none => rfl
  | some e => simp [ht, bne]

theorem effectNotDeny_eq (ht : ¬ (t = .functional ∨ t = .rbac))
    (effect : Option Json) : effectNotDeny effect = !readsAsDeny t effect := by
  unfold effectNotDeny readsAsDeny
  cases Json.getStr effect with
  | none => rfl
  | some e => simp [ht, bne]

/-! ## §2 One statement for seven strategies -/

theorem firstMatch_allows_iff {β : Type} {compile : Json → β} {isMatch isAllow : β → Bool}
    {applies denies : Json → Bool} {items : List Json} {guard : Bool}
    (happlies : ∀ i, applies i = (guard && isMatch (compile i)))
    (hdenies : ∀ i, applies i = true → isAllow (compile i) = !denies i) :
    guard = true ∧ firstMatch isMatch isAllow (items.map compile) = (.ok, true) ↔
      ∃ item, items.find? applies = some item ∧ denies item = false := by
  rw [firstMatch, find?_map]
  cases guard with
  | true =>
    have hcomp : isMatch ∘ compile = applies := funext fun i => (happlies i).symm
    rw [hcomp]
    cases hfind : items.find? applies with
    | none => simp
    | some item => simp [hdenies item (find?_some hfind)]
  | false =>
    have hnone : items.find? applies = none := find?_eq_none.mpr (by simp [happlies])
    simp [hnone]

theorem unless_allows_iff {c : Prop} [Decidable c] {r : StrategyResult} :
    (if c then (.notFound, false) else r) = (.ok, true) ↔ ¬ c ∧ r = (.ok, true) := by
  split <;> simp_all

section Allows

variable {V : Vendor} {h : Heap} {s : Store} {ctx : EvalContext} {text : Bytes}

/-- A strategy answers ALLOW on the rule compiled from the text. -/
def AnswersAllow (V : Vendor) (h : Heap) (s : Store) (ctx : EvalContext) (t : StrategyType)
    (text : Bytes) : Prop :=
  (strategyEvaluate V h s t (compileRules V t text) ctx).map Prod.fst = some (.ok, true)

/-- The deciding item is there and its effect is no deny. -/
def DecidedByAllow (V : Vendor) (h : Heap) (s : Store) (ctx : EvalContext) (t : StrategyType)
    (text : Bytes) : Prop :=
  ∃ item, decidingItem V h s ctx t text = some item ∧ readsAsDeny t (itemEffect item) = false

variable {item : Json}

theorem lbacItem_isAllow (happlies : itemApplies V h s ctx .lbac text item = true) :
    (lbacItem item).isAllow = !readsAsDeny .lbac (itemEffect item) := by
  cases item with
  | str t => rfl
  | obj ms => exact effectNotDeny_eq (by simp) _
  | _ =>
    simp only [itemApplies, lbacItem, Bool.and_eq_true, beq_iff_eq, bne_iff_ne] at happlies
    exact absurd happlies.2.symm happlies.1.1.2

/-- Nor does the zeroed slot of a location item match an address. -/
theorem locItem_isAllow (happlies : itemApplies V h s ctx .location text item = true) :
    (locItem item).isAllow = !readsAsDeny .location (itemEffect item) := by
  cases item with
  | str t => rfl
  | obj ms =>
    rw [itemEffect, ← effectNotDeny_eq (by simp)]
    simp only [locItem]
    split
    · rfl
    · split <;> rfl
  | _ =>
    simp only [itemApplies, Bool.and_eq_true, bne_iff_ne] at happlies
    have hmatch := happlies.2
    simp [locItem, locMatches, ipMatchesCidr, parseCidr, strlcpy, cstr, happlies.1] at hmatch

theorem functional_allows_iff :
    AnswersAllow V h s ctx .functional text ↔ DecidedByAllow V h s ctx .functional text := by
  unfold AnswersAllow DecidedByAllow decidingItem
  simp only [compileRules, funcCompile, ruleItems]
  cases ruleArray V text (lit "functions") with
  | none => simp [strategyEvaluate]
  | some items =>
    refine Iff.trans ?_
      (@firstMatch_allows_iff _ funcItem (fun i => wildcardMatch i.code ctx.functionCode)
      FuncItem.isAllow _ _ items _ (fun _ => rfl) fun _ _ => effectIsAllow_eq (.inl rfl) _)
    simp [strategyEvaluate, evaluateCompiled, funcEvaluate, unless_allows_iff]

theorem api_allows_iff : AnswersAllow V h s ctx .api text ↔ DecidedByAllow V h s ctx .api text := by
  unfold AnswersAllow DecidedByAllow decidingItem
  simp only [compileRules, apiCompile, ruleItems]
  cases ruleArray V text (lit "endpoints") with
  | none => simp [strategyEvaluate]
  | some items =>
    refine Iff.trans ?_ (@firstMatch_allows_iff _ apiItem (fun i =>
        (i.method == lit "*" || strCaseEq i.method ctx.httpMethod) &&
          pathMatch i.path ctx.requestPath)
      ApiItem.isAllow _ _ items _ (fun _ => rfl) fun _ _ => effectNotDeny_eq (by simp) _)
    simp [strategyEvaluate, evaluateCompiled, apiEvaluate, unless_allows_iff]

theorem rbac_allows_iff :
    AnswersAllow V h s ctx .rbac text ↔ DecidedByAllow V h s ctx .rbac text := by
  unfold AnswersAllow DecidedByAllow decidingItem
  simp only [compileRules, rbacCompile, ruleItems]
  cases ruleArray V text (lit "roles") with
  | none => simp [strategyEvaluate]
  | some items =>
    refine Iff.trans ?_ (@firstMatch_allows_iff _ rbacItem (fun i => i.roleName == ctx.roleName)
      RbacItem.isAllow _ _ items _ (fun _ => rfl) fun _ _ => effectIsAllow_eq (.inr rfl) _)
    simp only [map_some, strategyEvaluate, evaluateCompiled, rbacEvaluate, firstMatch]
    cases (items.map rbacItem).find? fun i => i.roleName == ctx.roleName with
    | none => simp
    | some i => cases userHasRole s ctx.userId ctx.roleName with
      | none => simp
      | some has => cases has <;> by_cases hrole : ctx.roleName = [] <;> simp [hrole]

theorem lbac_allows_iff :
    AnswersAllow V h s ctx .lbac text ↔ DecidedByAllow V h s ctx .lbac text := by
  unfold AnswersAllow DecidedByAllow decidingItem
  simp only [compileRules, lbacCompile, ruleItems]
  cases (ruleArray V text (lit "labels")).or (ruleArray V text (lit "clearance_levels")) with
  | none => simp [strategyEvaluate]
  | some items =>
    refine Iff.trans ?_
      (@firstMatch_allows_iff _ lbacItem (fun i => i.labelName == ctx.resourceLabel)
      LbacItem.isAllow _ _ items _ (fun _ => rfl) fun _ hi => lbacItem_isAllow hi)
    simp only [map_some, strategyEvaluate, evaluateCompiled, lbacEvaluate, firstMatch]
    cases (items.map lbacItem).find? fun i => i.labelName == ctx.resourceLabel with
    | none => simp
    | some i => cases labelInList ctx.resourceLabel ctx.userLabels <;> simp [unless_allows_iff]

theorem location_allows_iff :
    AnswersAllow V h s ctx .location text ↔ DecidedByAllow V h s ctx .location text := by
  unfold AnswersAllow DecidedByAllow decidingItem
  simp only [compileRules, locCompile, ruleItems]
  cases (ruleArray V text (lit "locations")).or (ruleArray V text (lit "allowed_ips")) with
  | none => simp [strategyEvaluate]
  | some items =>
    refine Iff.trans ?_ (@firstMatch_allows_iff _ locItem (locMatches ctx)
      LocItem.isAllow _ _ items _ (fun _ => rfl) fun _ hi => locItem_isAllow hi)
    simp [strategyEvaluate, evaluateCompiled, locEvaluate, unless_allows_iff]

theorem decided_single_iff {root : Json} {applies denies : Json → Bool} :
    (∃ item, [root].find? applies = some item ∧ denies item = false) ↔
      applies root = true ∧ denies root = false := by
  cases happlies : applies root <;> simp [find?, happlies]

theorem dataEvaluate_ok {rule : DataRule} {allow : Bool} {ctx' : EvalContext}
    (heval : dataEvaluate V h rule ctx = some ((.ok, allow), ctx')) : allow = rule.isAllow := by
  unfold dataEvaluate at heval
  split at heval
  · simp at heval
  · split at heval
    · cases heval
    · obtain ⟨_, -, heq⟩ := map_eq_some_iff.mp heval
      exact (congrArg (fun r => r.1.2) heq).symm
    · next e hne _ =>
      obtain ⟨⟨rfl, -⟩, -⟩ : (e = .ok ∧ false = allow) ∧ _ := by simpa using heval
      exact absurd rfl hne

theorem data_allows_iff :
    AnswersAllow V h s ctx .data text ↔ DecidedByAllow V h s ctx .data text := by
  unfold AnswersAllow DecidedByAllow decidingItem
  simp only [compileRules, ruleItems]
  cases hread : V.yyjsonRead (cstr text) with
  | none => simp [strategyEvaluate, dataCompile, hread]
  | some root =>
    obtain ⟨rule, hrule, hallow⟩ : ∃ rule, dataCompile V text = some rule ∧
        rule.isAllow = !readsAsDeny .data (itemEffect root) := by
      rw [dataCompile, hread]
      exact ⟨_, rfl, effectNotDeny_eq (by simp) _⟩
    rw [hrule, toList_some, decided_single_iff]
    simp only [map_some, strategyEvaluate, evaluateCompiled, itemApplies, hrule, any_some]
    cases heval : dataEvaluate V h rule ctx with
    | none => simp
    | some answer =>
      obtain ⟨⟨err, allow⟩, ctx'⟩ := answer
      by_cases herr : err = .ok
      · subst herr
        simp [dataEvaluate_ok heval, hallow]
      · simp [herr]

theorem abac_allows_iff :
    AnswersAllow V h s ctx .abac text ↔ DecidedByAllow V h s ctx .abac text := by
  unfold AnswersAllow DecidedByAllow decidingItem
  simp only [compileRules, ruleItems]
  cases hread : V.yyjsonRead (cstr text) with
  | none => simp [strategyEvaluate, abacCompile, hread]
  | some root =>
    rw [toList_some, decided_single_iff]
    cases hrule : abacCompile V text with
    | none => simp [strategyEvaluate, itemApplies, hrule]
    | some rule =>
      have hallow : rule.isAllowEffect = !readsAsDeny .abac (itemEffect root) := by
        rw [abacCompile, hread] at hrule
        obtain ⟨items, -, rfl⟩ := map_eq_some_iff.mp hrule
        exact effectNotDeny_eq (by simp) _
      obtain ⟨met, hmet⟩ : ∃ met : Bool, abacEvaluate V rule ctx =
          if met then (.ok, rule.isAllowEffect) else (.notFound, false) := ⟨_, rfl⟩
      simp only [map_some, strategyEvaluate, evaluateCompiled, itemApplies, hrule, any_some, hmet]
      cases met <;> simp [hallow]

/-- A strategy answers ALLOW exactly when there is a deciding item and its effect does not
read as a deny. -/
theorem allows_iff_deciding (t : StrategyType) :
    AnswersAllow V h s ctx t text ↔ DecidedByAllow V h s ctx t text := by
  cases t with
  | functional => exact functional_allows_iff
  | api => exact api_allows_iff
  | data => exact data_allows_iff
  | rbac => exact rbac_allows_iff
  | location => exact location_allows_iff
  | abac => exact abac_allows_iff
  | lbac => exact lbac_allows_iff
  | other n => simp [AnswersAllow, DecidedByAllow, decidingItem, strategyEvaluate, compileRules,
      ruleItems]

end Allows

/-! ## §3 The engine -/

/-- The policy contributes an ALLOW to the decision. -/
def ContributesAllow (V : Vendor) (h : Heap) (s : Store) (eng : Engine) (p : Policy)
    (ctx : EvalContext) : Prop :=
  (evaluatePolicy V h s eng p ctx).map Prod.fst = some (.ok, true)

/-- The effect is absent or exactly the text "allow". -/
def EffectAllows (effect : Option Json) : Prop :=
  effect = none ∨ effect = some (.str (lit "allow"))

/-- The policy widens nothing on this request: it is disabled, nothing in it decides, the
deciding item reads as a deny, or both effects do say allow. -/
def Unwidened (V : Vendor) (h : Heap) (s : Store) (ctx : EvalContext) (p : Policy)
    (text : Bytes) : Prop :=
  p.status = .disabled ∨ ∀ item, decidingItem V h s ctx p.strategyType text = some item →
    readsAsDeny p.strategyType (itemEffect item) = true ∨
      p.effect ≠ .deny ∧ EffectAllows (itemEffect item)

section Engine

variable {V : Vendor} {h : Heap} {s : Store} {eng : Engine} {p : Policy} {ctx : EvalContext}
  {text : Bytes}

theorem contributesAllow_iff
    (hrule : (compiledFor V eng p).1 = compileRules V p.strategyType text) :
    ContributesAllow V h s eng p ctx ↔
      p.status ≠ .disabled ∧ DecidedByAllow V h s ctx p.strategyType text := by
  unfold ContributesAllow evaluatePolicy
  split
  · next hdisabled => simp [hdisabled]
  · next henabled =>
    split
    · next hunknown =>
      refine iff_of_false (by simp) fun hdec => ?_
      obtain ⟨item, hitem, -⟩ := hdec.2
      cases ht : p.strategyType <;> simp_all [StrategyType.registered, decidingItem, ruleItems]
    · rw [← allows_iff_deciding, AnswersAllow, ← hrule]
      simp [henabled, Option.map_map, Function.comp_def]

/-- **Effects.** `text` is the rule text the policy's compiled rule was made from. The policy
contributes an ALLOW only if its own effect and the deciding item's effect say so, exactly
under `Unwidened`. -/
theorem effects_unwidened_iff
    (hrule : (compiledFor V eng p).1 = compileRules V p.strategyType text) :
    (ContributesAllow V h s eng p ctx → p.effect ≠ .deny ∧
      ∀ item, decidingItem V h s ctx p.strategyType text = some item →
        EffectAllows (itemEffect item)) ↔ Unwidened V h s ctx p text := by
  rw [contributesAllow_iff hrule, Unwidened, DecidedByAllow]
  cases hitem : decidingItem V h s ctx p.strategyType text with
  | none => simp
  | some item =>
    by_cases hdeny : readsAsDeny p.strategyType (itemEffect item) = true
    · simp [hdeny]
    · by_cases hstatus : p.status = .disabled
      · simp [hstatus]
      · simp [hdeny, hstatus]

/-- `{"endpoints":[{"method":"*","path":"/**","effect":"Deny"}]}`. -/
def capitalDenyRules : Json :=
  .obj [(lit "endpoints", .arr [.obj [(lit "method", .str (lit "*")),
    (lit "path", .str (lit "/**")), (lit "effect", .str (lit "Deny"))]])]

/-- The same with the effect spelled as the compilers read it. -/
def plainDenyRules : Json :=
  .obj [(lit "endpoints", .arr [.obj [(lit "method", .str (lit "*")),
    (lit "path", .str (lit "/**")), (lit "effect", .str (lit "deny"))]])]

def denyVendor : Vendor :=
  .ofTable [(lit "capital", capitalDenyRules), (lit "plain", plainDenyRules)]

/-- A policy that is meant to deny every request. -/
def denyPolicy (rules : String) : Policy where
  id := 1
  name := lit "deny all"
  strategyType := .api
  effect := .deny
  priority := 50
  rules := lit rules
  status := .enabled

/-- A request for `GET /users`. -/
def usersRequest : EvalContext where
  userId := 1
  params := (Block.zero.strlcpy 0 8 (lit "GET")).strlcpy 8 1024 (lit "/users")
  environment := []
  fieldFilter := none
  recordOwned := false

def noHeap : Heap where
  load := fun _ => none
  filterAddr := .firstPage

theorem plainDeny_unwidened :
    compileRules denyVendor .api (lit "plain") ≠ none ∧
    (ContributesAllow denyVendor noHeap memOpen permEngineCreate (denyPolicy "plain")
        usersRequest → (denyPolicy "plain").effect ≠ .deny ∧
      ∀ item, decidingItem denyVendor noHeap memOpen usersRequest .api (lit "plain") = some item →
        EffectAllows (itemEffect item)) := by
  refine ⟨by decide +kernel, (effects_unwidened_iff rfl).mpr (.inr fun item hitem => .inl ?_)⟩
  have hreads : (decidingItem denyVendor noHeap memOpen usersRequest .api (lit "plain")).map
      (fun item => readsAsDeny .api (itemEffect item)) = some true := by
    decide +kernel
  obtain ⟨found, hfound, hread⟩ := map_eq_some_iff.mp hreads
  cases hfound.symm.trans hitem
  exact hread

/-- A DENY policy whose one item says "Deny" contributes an ALLOW. -/
theorem capitalDeny_allows :
    ContributesAllow denyVendor noHeap memOpen permEngineCreate (denyPolicy "capital")
      usersRequest ∧ (denyPolicy "capital").effect = .deny ∧
    (decidingItem denyVendor noHeap memOpen usersRequest .api (lit "capital")).map
      (fun item => Json.getStr (itemEffect item)) = some (some (lit "Deny")) := by
  refine ⟨?_, rfl, ?_⟩
  · unfold ContributesAllow
    decide +kernel
  · decide +kernel

end Engine

end SsoSystem
