/-
SsoSystem.Strategy.Location — the location strategy (strategies/loc_perm.c):
CIDR ranges, exact addresses and country codes.

Addresses are parsed with `sscanf("%u.%u.%u.%u")` and prefixes with `atoi`,
both modelled by their documented behaviour: blanks and a sign are accepted,
digits are read to the end, 64-bit conversion saturates and the result is
truncated to 32 bits. No range check follows in the source.
-/
import SsoSystem.Strategy.Items

namespace SsoSystem

open CMem

/-! ## §1 Number scanning -/

/-- `isspace` in the C locale. -/
def isSpace (b : UInt8) : Bool := b == 32 || (9 ≤ b && b ≤ 13)

def isDigit (b : UInt8) : Bool := 48 ≤ b && b ≤ 57

/-- The number a run of digits spells. -/
def digitsVal (ds : Bytes) : Nat := ds.foldl (fun n d => 10 * n + (d.toNat - 48)) 0

/-- Blanks, a sign and digits off the front of a text: is it negative, the
digits, and what follows. -/
def scanSigned (s : Bytes) : Bool × Bytes × Bytes :=
  let t := s.dropWhile isSpace
  let (neg, u) := match t with
    | 45 :: r => (true, r)
    | 43 :: r => (false, r)
    | r => (false, r)
  (neg, u.takeWhile isDigit, u.dropWhile isDigit)

/-- One `%u` conversion, as `strtoul` cut to 32 bits; `none` when no digit follows. -/
def scanU (s : Bytes) : Option (UInt32 × Bytes) :=
  let (neg, ds, rest) := scanSigned s
  if ds = [] then none
  else
    let n := digitsVal ds
    let v := if 2 ^ 64 ≤ n then 2 ^ 64 - 1 else if neg then 2 ^ 64 - n else n
    some (UInt32.ofNat v, rest)

/-- `(unsigned int)atoi(s)`: `strtol` saturates at 64 bits, the casts keep 32. -/
def atoiU (s : Bytes) : UInt32 :=
  let (neg, ds, _) := scanSigned s
  let n := digitsVal ds
  if neg then UInt32.ofNat (2 ^ 64 - min n (2 ^ 63))
  else UInt32.ofNat (min n (2 ^ 63 - 1))

/-- A literal `.` of the `sscanf` format. -/
def scanDot : Bytes → Option Bytes
  | 46 :: s => some s
  | _ => none

/-- `ip_to_uint`; 0 when the four conversions do not all succeed. -/
def ipToUint (s : Bytes) : UInt32 :=
  let parsed := do
    let (a, s) ← scanU s
    let s ← scanDot s
    let (b, s) ← scanU s
    let s ← scanDot s
    let (c, s) ← scanU s
    let s ← scanDot s
    let (d, _) ← scanU s
    return (a <<< 24) ||| (b <<< 16) ||| (c <<< 8) ||| d
  parsed.getD 0

/-- `parse_cidr`. -/
def parseCidr (str : Bytes) : Option (UInt32 × UInt32) :=
  let buf := strlcpy 255 str
  match buf.dropWhile (· ≠ slash) with
  | [] => none
  | _ :: pre => some (ipToUint (buf.takeWhile (· ≠ slash)), atoiU pre)

/-- The netmask of a prefix length, all ones from 32 on. -/
def cidrMask (pre : UInt32) : UInt32 :=
  if 32 ≤ pre then 0xFFFFFFFF else 0xFFFFFFFF <<< (32 - pre)

/-- `ip_matches_cidr`. -/
def ipMatchesCidr (ipStr cidrStr : Bytes) (network pre : UInt32) : Bool :=
  let ip := ipToUint ipStr
  if ip = 0 then false
  else if 0 < pre then ip &&& cidrMask pre == network &&& cidrMask pre
  else
    match parseCidr cidrStr with
    | none => ipStr == cidrStr
    | some (net, pre) =>
      let mask := if pre = 0 then 0 else cidrMask pre
      ip &&& mask == net &&& mask

/-! ## §2 The strategy -/

inductive LocRuleType where
  | ipCidr | geo | exact
  deriving DecidableEq, Repr

/-- `loc_rule_item_t`. -/
structure LocItem where
  type : LocRuleType
  value : Bytes
  cidrNetwork : UInt32
  cidrPrefix : UInt32
  isAllow : Bool
  deriving DecidableEq, Repr

/-- An item that is neither a string nor an object keeps its zeroed slot,
which reads as an empty CIDR rule that denies. -/
def locItem : Json → LocItem
  | .str s =>
    { type := .exact, value := strlcpy 255 s, cidrNetwork := 0, cidrPrefix := 0, isAllow := true }
  | .obj ms =>
    let o := some (Json.obj ms)
    let value := Json.copyStr 255 (Json.objGet o (lit "value"))
    let isAllow := effectNotDeny (Json.objGet o (lit "effect"))
    if Json.getStr (Json.objGet o (lit "type")) = some (lit "geo") then
      { type := .geo, value, cidrNetwork := 0, cidrPrefix := 0, isAllow }
    else
      match parseCidr value with
      | some (net, pre) =>
        { type := .ipCidr, value, cidrNetwork := net, cidrPrefix := pre, isAllow }
      | none => { type := .exact, value, cidrNetwork := 0, cidrPrefix := 0, isAllow }
  | _ => { type := .ipCidr, value := [], cidrNetwork := 0, cidrPrefix := 0, isAllow := false }

/-- `loc_compile`: "locations", or the older "allowed_ips". -/
def locCompile (V : Vendor) (rules : Bytes) : Option (List LocItem) :=
  ((ruleArray V rules (lit "locations")).or (ruleArray V rules (lit "allowed_ips"))).map
    fun items => items.map locItem

/-- Whether one location item matches the request. -/
def locMatches (ctx : EvalContext) (i : LocItem) : Bool :=
  match i.type with
  | .ipCidr => ipMatchesCidr ctx.sourceIp i.value i.cidrNetwork i.cidrPrefix
  | .exact => ctx.sourceIp == i.value
  | .geo => !ctx.geoCountry.isEmpty && ctx.geoCountry == i.value

/-- `loc_evaluate`. -/
def locEvaluate (items : List LocItem) (ctx : EvalContext) : StrategyResult :=
  if ctx.sourceIp = [] then (.notFound, false)
  else firstMatch (locMatches ctx) LocItem.isAllow items

end SsoSystem
