/-
SsoSystem.Strategy.Dispatch — the role strategy (strategies/rbac_perm.c) and
the strategy table: which compile and evaluate function belongs to which
`perm_strategy_type_t`.

A compiled rule is a `void *` in the source. Handing one strategy the rule
another one compiled is a bad cast, so `strategyEvaluate` does not return on
a mismatch; the engine never produces one as long as its rule cache is right.
-/
import SsoSystem.Storage.Memory
import SsoSystem.Strategy.Attributes
import SsoSystem.Strategy.Location

namespace SsoSystem

open CMem

/-! ## §1 Role based -/

/-- `rbac_rule_item_t`. -/
structure RbacItem where
  roleName : Bytes
  isAllow : Bool
  deriving DecidableEq, Repr

def rbacItem (item : Json) : RbacItem where
  roleName := Json.copyStr 63 (Json.objGet (some item) (lit "name"))
  isAllow := effectIsAllow (Json.objGet (some item) (lit "effect"))

variable (V : Vendor) (h : Heap) (s : Store) (t : StrategyType) (compiled : Option Compiled)
    (ctx : EvalContext)

/-- `rbac_compile`. -/
def rbacCompile (rules : Bytes) : Option (List RbacItem) :=
  (ruleArray V rules (lit "roles")).map fun items => items.map rbacItem

/-- `user_has_role`; `none` when the ancestor walk of the store does not return. -/
def userHasRole (userId : Nat) (roleName : Bytes) : Option Bool :=
  match s.roleGetByName roleName with
  | none => some false
  | some role => (s.getUserRolesWithAncestors userId 128).map fun ids => ids.contains role.id

/-- `rbac_evaluate`: the first item with the requested name decides. -/
def rbacEvaluate (s : Store) (items : List RbacItem) (ctx : EvalContext) : Option StrategyResult :=
  if ctx.roleName = [] then some (.notFound, false)
  else
    match items.find? fun i => i.roleName == ctx.roleName with
    | none => some (.notFound, false)
    | some i => (userHasRole s ctx.userId ctx.roleName).map fun has =>
        if has then (.ok, i.isAllow) else (.notFound, false)

/-! ## §2 The strategy table -/

/-- What the `compile_rules` functions leave behind a `void *`. -/
inductive Compiled where
  | func (items : List FuncItem)
  | api (items : List ApiItem)
  | data (rule : DataRule)
  | rbac (items : List RbacItem)
  | loc (items : List LocItem)
  | abac (rule : AbacRule)
  | lbac (items : List LbacItem)
  deriving DecidableEq, Repr

/-- `strategy->compile_rules`; `none` is an error return. -/
def compileRules : StrategyType → Bytes → Option Compiled
  | .functional, rules => (funcCompile V rules).map .func
  | .api, rules => (apiCompile V rules).map .api
  | .data, rules => (dataCompile V rules).map .data
  | .rbac, rules => (rbacCompile V rules).map .rbac
  | .location, rules => (locCompile V rules).map .loc
  | .abac, rules => (abacCompile V rules).map .abac
  | .lbac, rules => (lbacCompile V rules).map .lbac
  | .other _, _ => none

/-- `strategy->evaluate` on a compiled rule. -/
def evaluateCompiled :
    StrategyType → Compiled → Option (StrategyResult × EvalContext)
  | .functional, .func items => some (funcEvaluate items ctx, ctx)
  | .api, .api items => some (apiEvaluate items ctx, ctx)
  | .data, .data rule => dataEvaluate V h rule ctx
  | .rbac, .rbac items => (rbacEvaluate s items ctx).map fun r => (r, ctx)
  | .location, .loc items => some (locEvaluate items ctx, ctx)
  | .abac, .abac rule => some (abacEvaluate V rule ctx, ctx)
  | .lbac, .lbac items => some (lbacEvaluate items ctx, ctx)
  | _, _ => none

/-- `strategy->evaluate`; a NULL compiled rule is `SSO_ERR_INVALID_PARAM` in all seven. -/
def strategyEvaluate : Option (StrategyResult × EvalContext) :=
  match compiled with
  | none => some ((.invalidParam, false), ctx)
  | some c => evaluateCompiled V h s ctx t c

/-- `perm_engine_get_strategy` on the engine `perm_engine_create` sets up. -/
def StrategyType.registered : StrategyType → Bool
  | .other _ => false
  | _ => true

end SsoSystem
