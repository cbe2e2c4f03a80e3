/-
SsoSystem.Json — JSON values as the strategies see them, and the vendored
reader as a parameter.

The repository reads JSON with yyjson (src/yyjson.c, some 11,000 lines of
vendored code). The accessors the strategies call are defined here on an
inductive value type; the reader itself, `printf("%g")` and `strtod` are the
fields of `Vendor`, so every theorem holds for whatever they return. A
number keeps its literal, since the strategies only ever print or compare it.

A NULL value pointer is `none`, and every accessor accepts it, as yyjson's do.
-/
import Mathlib.Data.Rat.Defs
import SsoSystem.Types

namespace SsoSystem

open CMem

inductive Json where
  | null
  | bool (b : Bool)
  | num (literal : Bytes)
  | str (s : Bytes)
  | arr (xs : List Json)
  | obj (members : List (Bytes × Json))

namespace Json

/-- `yyjson_obj_get`: the first member with this key, NULL on anything but an object. -/
def objGet : Option Json → Bytes → Option Json
  | some (.obj ms), key => (ms.find? fun m => m.1 == key).map Prod.snd
  | _, _ => none

/-- `yyjson_is_str` with `yyjson_get_str`, read as a C string. -/
def getStr : Option Json → Option Bytes
  | some (.str s) => some (cstr s)
  | _ => none

/-- `yyjson_is_num`, with the literal behind `yyjson_get_num`. -/
def getNum : Option Json → Option Bytes
  | some (.num lit) => some lit
  | _ => none

/-- `yyjson_is_arr` with the elements `yyjson_arr_foreach` visits. -/
def getArr : Option Json → Option (List Json)
  | some (.arr xs) => some xs
  | _ => none

/-- The member's text copied into a buffer of `size` bytes that was zeroed before. -/
def copyStr (size : Nat) (v : Option Json) : Bytes := strlcpy size ((getStr v).getD [])

end Json

/-- A C `double` as far as the strategies compare it. -/
inductive Dbl where
  | nan
  | negInf
  | fin (q : ℚ)
  | posInf
  deriving DecidableEq

namespace Dbl

/-- `a < b`; every comparison with a NaN is false. -/
def lt : Dbl → Dbl → Bool
  | fin p, fin q => decide (p < q)
  | negInf, fin _ => true
  | negInf, posInf => true
  | fin _, posInf => true
  | _, _ => false

/-- `a <= b`. -/
def le : Dbl → Dbl → Bool
  | nan, _ => false
  | _, nan => false
  | a, b => !(lt b a)

end Dbl

/-- Vendored and C library code the strategies call. -/
structure Vendor where
  /-- `yyjson_read(text, strlen(text), 0)` and its root value. -/
  yyjsonRead : Bytes → Option Json
  /-- `"%g"` of the double a number literal reads as. -/
  fmtG : Bytes → Bytes
  strtod : Bytes → Dbl

/-- A reader that knows the listed texts, to run the model on concrete rules. -/
def Vendor.ofTable (table : List (Bytes × Json)) : Vendor where
  yyjsonRead := fun text => (table.find? fun row => row.1 == text).map Prod.snd
  fmtG := id
  strtod := fun _ => .fin 0

end SsoSystem
