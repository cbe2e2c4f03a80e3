/-
SsoSystem.Strategy.Items — the three strategies that match a text of the
request against a rule list: functional (strategies/func_perm.c), API
(strategies/api_perm.c) and label based (strategies/lbac_perm.c).

Each compiles its rules into a flat item array and decides by the first
item that matches; no match is `SSO_ERR_NOT_FOUND`, which the engine reads
as "this policy says nothing". Two readings of an item's `effect` exist in
the source and both are kept: the functional and role strategies allow on
exactly "allow" (or when it is absent), the others allow on anything but
exactly "deny".
-/
import SsoSystem.Json
import SsoSystem.Permission.EvalContext

namespace SsoSystem

open CMem

/-- A strategy's return code and the value left in `*result`. -/
abbrev StrategyResult := SsoError × Bool

/-! ## §1 Shared pieces -/

variable (V : Vendor) (rules : Bytes) (key : Bytes)

/-- The rules' array under `key`, when the text parses and the member is an array. -/
def ruleArray : Option (List Json) :=
  match V.yyjsonRead (cstr rules) with
  | none => none
  | some root => Json.getArr (Json.objGet (some root) key)

/-- `effect` is absent, or not a string, or exactly "allow". -/
def effectIsAllow (effect : Option Json) : Bool :=
  match Json.getStr effect with
  | some e => e == lit "allow"
  | none => true

/-- `effect` is anything but exactly "deny". -/
def effectNotDeny (effect : Option Json) : Bool := Json.getStr effect != some (lit "deny")

/-- Walks an item array and answers with the first match. -/
def firstMatch {α : Type} (isMatch : α → Bool) (isAllow : α → Bool) (items : List α) :
    StrategyResult :=
  match items.find? isMatch with
  | some i => (.ok, isAllow i)
  | none => (.notFound, false)

/-! ## §2 Functional -/

def star : UInt8 := 42
def slash : UInt8 := 47
def colon : UInt8 := 58
def comma : UInt8 := 44
def space : UInt8 := 32

/-- `wildcard_match`. A run of stars is skipped one at a time; after the last
one the rest of the pattern is tried at every position that has text left. -/
def wildcardMatch : Bytes → Bytes → Bool
  | [], str => str.isEmpty
  | c :: pattern, str =>
    if c = star then
      match pattern with
      | [] => true
      | d :: _ =>
        if d = star then wildcardMatch pattern str
        else str.tails.any fun t => !t.isEmpty && wildcardMatch pattern t
    else
      match str with
      | [] => false
      | d :: str => c == d && wildcardMatch pattern str

/-- `func_rule_item_t`. -/
structure FuncItem where
  code : Bytes
  isAllow : Bool
  deriving DecidableEq, Repr

def funcItem (item : Json) : FuncItem where
  code := Json.copyStr 127 (Json.objGet (some item) (lit "code"))
  isAllow := effectIsAllow (Json.objGet (some item) (lit "effect"))

/-- `func_compile`; `none` is `SSO_ERR_RULE_INVALID`. -/
def funcCompile : Option (List FuncItem) :=
  (ruleArray V rules (lit "functions")).map fun items => items.map funcItem

/-- `func_evaluate`. -/
def funcEvaluate (items : List FuncItem) (ctx : EvalContext) : StrategyResult :=
  if ctx.functionCode = [] then (.notFound, false)
  else firstMatch (fun i => wildcardMatch i.code ctx.functionCode) FuncItem.isAllow items

/-! ## §3 API -/

/-- One turn of the loop of `path_match` per unit of fuel; every turn shortens
the pattern, so `pattern.length` turns are enough. -/
def pathMatchLoop : Nat → Bytes → Bytes → Bool
  | fuel + 1, c :: pattern, d :: path =>
    if c = star then
      match pattern with
      | e :: rest =>
        if e = star then true
        else pathMatchLoop fuel (if e = slash then rest else pattern)
          ((d :: path).dropWhile (· ≠ slash))
      | [] => pathMatchLoop fuel [] ((d :: path).dropWhile (· ≠ slash))
    else if c = colon then
      pathMatchLoop fuel (pattern.dropWhile (· ≠ slash)) ((d :: path).dropWhile (· ≠ slash))
    else if c = d then pathMatchLoop fuel pattern path
    else false
  | _, pattern, path => (pattern.dropWhile (· = star)).isEmpty && path.isEmpty

/-- `path_match`. -/
def pathMatch (pattern path : Bytes) : Bool := pathMatchLoop pattern.length pattern path

/-- `tolower` in the C locale. -/
def toLower (b : UInt8) : UInt8 := if 65 ≤ b ∧ b ≤ 90 then b + 32 else b

/-- `strcasecmp(a, b) == 0`. -/
def strCaseEq (a b : Bytes) : Bool := a.map toLower == b.map toLower

/-- `api_rule_item_t`. -/
structure ApiItem where
  method : Bytes
  path : Bytes
  isAllow : Bool
  deriving DecidableEq, Repr

def apiItem (item : Json) : ApiItem where
  method := Json.copyStr 15 (Json.objGet (some item) (lit "method"))
  path := Json.copyStr 255 (Json.objGet (some item) (lit "path"))
  isAllow := effectNotDeny (Json.objGet (some item) (lit "effect"))

/-- `api_compile`. -/
def apiCompile : Option (List ApiItem) :=
  (ruleArray V rules (lit "endpoints")).map fun items => items.map apiItem

/-- `api_evaluate`. -/
def apiEvaluate (items : List ApiItem) (ctx : EvalContext) : StrategyResult :=
  if ctx.httpMethod = [] ∨ ctx.requestPath = [] then (.notFound, false)
  else firstMatch
    (fun i => (i.method == lit "*" || strCaseEq i.method ctx.httpMethod)
      && pathMatch i.path ctx.requestPath)
    ApiItem.isAllow items

/-! ## §4 Label based -/

/-- `lbac_rule_item_t`. -/
structure LbacItem where
  labelName : Bytes
  isAllow : Bool
  deriving DecidableEq, Repr

/-- An item that is neither a string nor an object keeps its zeroed slot. -/
def lbacItem : Json → LbacItem
  | .str s => { labelName := strlcpy 63 s, isAllow := true }
  | .obj ms =>
    { labelName := Json.copyStr 63 (Json.objGet (some (.obj ms)) (lit "name"))
      isAllow := effectNotDeny (Json.objGet (some (.obj ms)) (lit "effect")) }
  | _ => { labelName := [], isAllow := false }

/-- `lbac_compile`: "labels", or the older "clearance_levels". -/
def lbacCompile : Option (List LbacItem) :=
  ((ruleArray V rules (lit "labels")).or (ruleArray V rules (lit "clearance_levels"))).map
    fun items => items.map lbacItem

/-- The `strstr` loop of `label_in_list`. `prev` is the byte before the
position, `none` at the start of the list; after a hit that is not a whole
entry the search goes on behind it. -/
def labelSearch (label : Bytes) : Nat → Option UInt8 → Bytes → Bool
  | 0, _, _ => false
  | fuel + 1, prev, list =>
    if label.isPrefixOf list then
      let after := list.drop label.length
      if (prev = none ∨ prev = some comma) ∧ (after = [] ∨ after.head? = some comma) then true
      else labelSearch label fuel label.getLast? after
    else
      match list with
      | [] => false
      | c :: list => labelSearch label fuel (some c) list

/-- `label_in_list`, for the non-empty labels `lbac_evaluate` passes. -/
def labelInList (label list : Bytes) : Bool := labelSearch label (list.length + 1) none list

/-- `lbac_evaluate`: the first item for the resource's label decides, and it
says nothing when the user does not hold that label. -/
def lbacEvaluate (items : List LbacItem) (ctx : EvalContext) : StrategyResult :=
  if ctx.userLabels = [] ∨ ctx.resourceLabel = [] then (.notFound, false)
  else
    match items.find? fun i => i.labelName == ctx.resourceLabel with
    | none => (.notFound, false)
    | some i =>
      if labelInList ctx.resourceLabel ctx.userLabels then (.ok, i.isAllow)
      else (.notFound, false)

end SsoSystem
