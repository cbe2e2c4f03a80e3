/-
SsoSystem.Storage.Records — the C structs of the storage interface, field by
field (include/user.h, role.h, group.h, policy.h and storage.h).

The backends that write structs out and read them back go through them by
field name. A struct is a list of fields with their C types, and a value of it
(`Record`) has one value of the right type for each: `Chars size` is the text
of a `char [size]` field, NULL is `none`, and a pointer is its address.
-/
import SsoSystem.Lib.CMem

namespace SsoSystem

open CMem

/-! ## §1 C values -/

/-- The integer types of arguments and fields, enumerations apart from `int`
(they have no negative member, so they are unsigned). -/
inductive IntType where
  | bool | int | enum | int64 | uint64
  deriving DecidableEq

def IntType.Value : IntType → Type
  | .bool => Bool
  | .int => Int32
  | .enum => UInt32
  | .int64 => Int64
  | .uint64 => UInt64

instance (t : IntType) : DecidableEq t.Value := by
  cases t <;> dsimp only [IntType.Value] <;> infer_instance

/-- The number a value stands for. -/
def IntType.toInt : (t : IntType) → t.Value → Int
  | .bool, v => Int.ofNat (Bool.toNat v)
  | .int, v => Int32.toInt v
  | .enum, v => Int.ofNat (UInt32.toNat v)
  | .int64, v => Int64.toInt v
  | .uint64, v => Int.ofNat (UInt64.toNat v)

/-- The conversion of a number to the type. -/
def IntType.ofInt : (t : IntType) → Int → t.Value
  | .bool, n => decide (n ≠ 0)
  | .int, n => Int32.ofInt n
  | .enum, n => UInt32.ofInt n
  | .int64, n => Int64.ofInt n
  | .uint64, n => UInt64.ofInt n

/-- A C string. -/
def CString := { t : Bytes // (0 : UInt8) ∉ t }

instance : DecidableEq CString := inferInstanceAs (DecidableEq { t : Bytes // (0 : UInt8) ∉ t })

/-- The text in a `char [size]` field. -/
def Chars (size : Nat) := { t : Bytes // (0 : UInt8) ∉ t ∧ t.length ≤ size - 1 }

instance (size : Nat) : DecidableEq (Chars size) :=
  inferInstanceAs (DecidableEq { t : Bytes // (0 : UInt8) ∉ t ∧ t.length ≤ size - 1 })

/-- `strncpy(field, text, sizeof(field) - 1)` into a zeroed field. -/
def Chars.copy (size : Nat) (text : Bytes) : Chars size :=
  ⟨strlcpy size text, not_mem_strlcpy size text, length_strlcpy_le size text⟩

theorem copy_val {size : Nat} (hsize : 0 < size) (v : Chars size) : Chars.copy size v.val = v := by
  have hlen := v.property.2
  exact Subtype.ext (strlcpy_eq_self v.property.1 (by omega))

inductive FieldKind where
  | int (t : IntType)
  | chars (size : Nat)
  /-- `const char *`. -/
  | charPtr
  /-- `void *`, by its address. -/
  | pointer
  deriving DecidableEq

def FieldKind.Value : FieldKind → Type
  | .int t => t.Value
  | .chars size => Chars size
  | .charPtr => Option CString
  | .pointer => UInt64

instance (k : FieldKind) : DecidableEq k.Value := by
  cases k <;> dsimp only [FieldKind.Value] <;> infer_instance

/-- What `memset(&val, 0, sizeof(val))` leaves in a field. -/
def FieldKind.zero : (k : FieldKind) → k.Value
  | .int t => t.ofInt 0
  | .chars size => Chars.copy size []
  | .charPtr => none
  | .pointer => (0 : UInt64)

structure Field where
  name : String
  kind : FieldKind
  deriving DecidableEq

/-- The values of a struct's fields. -/
def Record : List Field → Type
  | [] => Unit
  | f :: fs => f.kind.Value × Record fs

instance Record.decEq : (fs : List Field) → DecidableEq (Record fs)
  | [] => inferInstanceAs (DecidableEq Unit)
  | f :: fs =>
    have := Record.decEq fs
    inferInstanceAs (DecidableEq (f.kind.Value × Record fs))

/-- The value of one field. -/
def Record.at : {fs : List Field} → Record fs → (f : Field) → f.kind.Value
  | [], _, f => f.kind.zero
  | g :: _, r, f => if h : g = f then h ▸ r.1 else Record.at r.2 f

/-- An assignment to one field. -/
def Record.put : {fs : List Field} → Record fs → (f : Field) → f.kind.Value → Record fs
  | [], r, _, _ => r
  | g :: _, r, f, v => if h : g = f then (h ▸ v, r.2) else (r.1, Record.put r.2 f v)

/-- The record whose fields are filled in one by one. -/
def Record.build : (fs : List Field) → ((f : Field) → f.kind.Value) → Record fs
  | [], _ => ()
  | f :: fs, value => (value f, Record.build fs value)

/-! ## §2 The structs -/

inductive StructType where
  | user | role | group | policy | refreshToken | oauthAuthCode | oauthClient | auditLogEntry
  deriving DecidableEq

def StructType.fields : StructType → List Field
  | .user => [⟨"id", .int .uint64⟩, ⟨"username", .chars 64⟩, ⟨"phone", .chars 32⟩,
      ⟨"password_hash", .chars 256⟩, ⟨"email", .chars 128⟩,
      ⟨"display_name", .chars 128⟩, ⟨"status", .int .enum⟩,
      ⟨"created_at", .int .int64⟩, ⟨"updated_at", .int .int64⟩,
      ⟨"attributes", .chars 2048⟩, ⟨"mfa_enabled", .int .int⟩,
      ⟨"mfa_secret", .chars 64⟩, ⟨"password_set_at", .int .int64⟩]
  | .role => [⟨"id", .int .uint64⟩, ⟨"name", .chars 64⟩, ⟨"description", .chars 512⟩,
      ⟨"parent_role_id", .int .uint64⟩, ⟨"status", .int .enum⟩,
      ⟨"created_at", .int .int64⟩, ⟨"updated_at", .int .int64⟩]
  | .group => [⟨"id", .int .uint64⟩, ⟨"name", .chars 64⟩, ⟨"description", .chars 512⟩,
      ⟨"parent_group_id", .int .uint64⟩, ⟨"status", .int .enum⟩,
      ⟨"created_at", .int .int64⟩, ⟨"updated_at", .int .int64⟩]
  | .policy => [⟨"id", .int .uint64⟩, ⟨"name", .chars 64⟩,
      ⟨"strategy_type", .int .enum⟩, ⟨"effect", .int .enum⟩,
      ⟨"priority", .int .int⟩, ⟨"rules", .chars 8192⟩,
      ⟨"compiled_rules", .pointer⟩, ⟨"status", .int .enum⟩,
      ⟨"created_at", .int .int64⟩, ⟨"updated_at", .int .int64⟩]
  | .refreshToken => [⟨"token_hash", .chars 128⟩, ⟨"user_id", .int .uint64⟩,
      ⟨"client_id", .chars 64⟩, ⟨"expires_at", .int .int64⟩,
      ⟨"issued_at", .int .int64⟩, ⟨"revoked", .int .int⟩]
  | .oauthAuthCode => [⟨"code", .chars 128⟩, ⟨"client_id", .chars 64⟩,
      ⟨"user_id", .int .uint64⟩, ⟨"redirect_uri", .chars 512⟩,
      ⟨"scope", .chars 256⟩, ⟨"nonce", .chars 128⟩,
      ⟨"code_challenge", .chars 256⟩, ⟨"code_challenge_method", .chars 16⟩,
      ⟨"expires_at", .int .int64⟩, ⟨"used", .int .int⟩]
  | .oauthClient => [⟨"id", .int .uint64⟩, ⟨"client_id", .chars 64⟩,
      ⟨"client_secret_hash", .chars 128⟩, ⟨"redirect_uris", .chars 512⟩,
      ⟨"app_name", .chars 128⟩, ⟨"app_description", .chars 256⟩,
      ⟨"app_logo_url", .chars 256⟩, ⟨"allowed_scopes", .chars 256⟩,
      ⟨"allowed_grant_types", .chars 128⟩, ⟨"token_ttl_ms", .int .int64⟩,
      ⟨"status", .int .int⟩, ⟨"created_at", .int .int64⟩, ⟨"updated_at", .int .int64⟩]
  | .auditLogEntry => [⟨"action", .charPtr⟩, ⟨"timestamp_ms", .int .uint64⟩,
      ⟨"user_id", .int .uint64⟩, ⟨"username", .charPtr⟩,
      ⟨"ip_address", .charPtr⟩, ⟨"operation", .charPtr⟩,
      ⟨"resource", .charPtr⟩, ⟨"resource_id", .int .uint64⟩,
      ⟨"status", .charPtr⟩, ⟨"details", .charPtr⟩,
      ⟨"duration_ms", .int .uint64⟩, ⟨"cache_hit", .int .bool⟩, ⟨"trace", .charPtr⟩]

end SsoSystem
