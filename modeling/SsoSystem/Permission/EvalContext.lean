/-
SsoSystem.Permission.EvalContext — the evaluation context and its parameter
union (include/sso.h, src/sso.c).

`params` is one 4160-byte block. The seven members of the C union are views
of that block at fixed offsets (x86-64 layout: pointers and `size_t` are
eight little-endian bytes), so a request that fills one member is visible
through the other six. A string read runs to the first NUL, wherever in the
union that stands.

Two things a C pointer means are kept beside the bytes. `fieldFilter` is the
array behind `data.field_filter` once the data strategy has allocated it, and
`recordOwned` says that `data.record` came from `strdup` in `perm_check_data`;
dereferencing or freeing a pointer that is neither is undefined behaviour,
which the callers model as not returning.
-/
import SsoSystem.Types

namespace SsoSystem

open CMem

/-! ## §1 The process heap -/

/-- An address user code can hold: not NULL, in the lower canonical half. -/
structure UserAddr where
  val : Nat
  pos : 0 < val
  lt : val < 2 ^ 47
  deriving DecidableEq

/-- The first two pages behind the one that is never mapped. -/
def UserAddr.firstPage : UserAddr := ⟨4096, by decide, by decide⟩

def UserAddr.secondPage : UserAddr := ⟨8192, by decide, by decide⟩

/-- What one evaluation finds in memory: the C string at each mapped address,
and the address `calloc` gives a field filter array. -/
structure Heap where
  load : UserAddr → Option Bytes
  filterAddr : UserAddr

/-- Reads the C string at a machine word; `none` is an invalid dereference. -/
def Heap.readStr (h : Heap) (a : Nat) : Option Bytes :=
  if ha : 0 < a ∧ a < 2 ^ 47 then (h.load ⟨a, ha.1, ha.2⟩).map cstr else none

theorem Heap.lt_of_readStr {h : Heap} {a : Nat} {s : Bytes} (hr : h.readStr a = some s) :
    a < 2 ^ 47 := by
  unfold Heap.readStr at hr
  split at hr
  · next ha => exact ha.2
  · exact absurd hr (by simp)

/-! ## §2 The parameter union -/

/-- `sizeof(ctx->params)`. -/
def paramsSize : Nat := 4160

structure EvalContext where
  userId : Nat
  params : Block
  environment : Bytes
  fieldFilter : Option (List Bytes)
  recordOwned : Bool

/-- `eval_context_init`. -/
def evalContextInit (user : User) : EvalContext where
  userId := user.id
  params := Block.zero
  environment := []
  fieldFilter := none
  recordOwned := false

namespace EvalContext

variable (ctx : EvalContext)

/-- The C string at an offset of the union. -/
def strAt (off : Nat) : Bytes := ctx.params.cstrFrom off (paramsSize - off)

/-- The pointer or `size_t` at an offset of the union. -/
def wordAt (off : Nat) : Nat := ctx.params.leNat off 8

def functionCode : Bytes := ctx.strAt 0
def httpMethod : Bytes := ctx.strAt 0
def requestPath : Bytes := ctx.strAt 8
def resourceType : Bytes := ctx.strAt 0
def record : Nat := ctx.wordAt 64
def fieldFilterPtr : Nat := ctx.wordAt 80
def roleName : Bytes := ctx.strAt 0
def sourceIp : Bytes := ctx.strAt 0
def geoCountry : Bytes := ctx.strAt 64
def subjectAttrs : Bytes := ctx.strAt 0
def resourceAttrs : Bytes := ctx.strAt 2048
def action : Bytes := ctx.strAt 4096
def userLabels : Bytes := ctx.strAt 0
def resourceLabel : Bytes := ctx.strAt 256

/-- `ctx->params.data.field_filter = filter` with its count (offset 88). -/
def setFieldFilter (h : Heap) (filter : List Bytes) : EvalContext :=
  { ctx with
    params := (ctx.params.putLe 80 8 h.filterAddr.val).putLe 88 8 filter.length
    fieldFilter := some filter }

/-- Whether `field_filter` may be freed: it is NULL or an array of this context. -/
def fieldFilterFreeable : Bool := ctx.fieldFilterPtr == 0 || ctx.fieldFilter.isSome

/-- `eval_context_destroy`; `none` when it frees a pointer that was never allocated. -/
def destroy : Option Unit :=
  if (ctx.record = 0 ∨ ctx.recordOwned) ∧ ctx.fieldFilterFreeable then some () else none

end EvalContext

/-- `hash_params`: djb2 over every byte of the union. -/
def hashParams (ctx : EvalContext) : UInt32 :=
  (List.range paramsSize).foldl (fun h i => (h <<< 5) + h + (ctx.params i).toUInt32) 5381

end SsoSystem
