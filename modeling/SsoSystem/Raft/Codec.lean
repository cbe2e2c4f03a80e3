/-
SsoSystem.Raft.Codec — storage commands and Raft messages as JSON.

scripts/gen_raft_proxy.py writes, for each mutating operation of storage.h, a
proxy that serializes its arguments and a branch of `raft_apply_dispatch` that
reads them back; src/raft_generated.inc is its checked-in output. What the
generator writes for an argument depends on its C type only (`ArgType`), so the
proxies are one definition over the table of operations (`StorageOp.params`),
and so are the branches of the dispatcher. The messages of src/raft_rpc.c are
built and read by hand, field by field.

A document is a `Json` value: that yyjson prints one and reads the same one
back is taken for granted.
-/
import SsoSystem.Json
import SsoSystem.Lib.Decimal
import SsoSystem.Storage.Records

namespace SsoSystem.Raft

open CMem Decimal

/-! ## §1 The operations of storage.h -/

/-- The generator's list of the fields of a struct, for the types it knows. -/
def listedFields : StructType → Option (List String)
  | .user => some ["id", "username", "phone", "password_hash", "email", "display_name", "status",
      "created_at", "updated_at"]
  | .role => some ["id", "name", "description", "parent_role_id", "status", "created_at",
      "updated_at"]
  | .group => some ["id", "name", "description", "parent_group_id", "status", "created_at",
      "updated_at"]
  | .policy => some ["id", "name", "strategy_type", "effect", "priority", "rules", "status",
      "created_at", "updated_at"]
  | .refreshToken | .oauthAuthCode | .oauthClient | .auditLogEntry => none

inductive ArgType where
  | charPtr
  | int (t : IntType)
  | struct (s : StructType)
  deriving DecidableEq

def ArgType.Value : ArgType → Type
  | .charPtr => Option CString
  | .int t => t.Value
  | .struct s => Option (Record s.fields)

instance (t : ArgType) : DecidableEq t.Value := by
  cases t <;> dsimp only [ArgType.Value] <;> infer_instance

structure Param where
  name : String
  type : ArgType
  deriving DecidableEq

/-- The arguments of a call, `self` apart. -/
def Args : List Param → Type
  | [] => Unit
  | p :: ps => p.type.Value × Args ps

instance Args.decEq : (ps : List Param) → DecidableEq (Args ps)
  | [] => inferInstanceAs (DecidableEq Unit)
  | p :: ps =>
    have := Args.decEq ps
    inferInstanceAs (DecidableEq (p.type.Value × Args ps))

/-- The operations with a proxy. -/
inductive StorageOp where
  | userCreate | userUpdate | userDelete | saveSmsCode | deleteSmsCode
  | roleCreate | roleUpdate | roleDelete | groupCreate | groupUpdate | groupDelete
  | policyCreate | policyUpdate | policyDelete
  | assignRoleUser | unassignRoleUser | assignRoleGroup | unassignRoleGroup
  | addUserGroup | removeUserGroup | assignPolicy | unassignPolicy
  | refreshTokenCreate | refreshTokenRevoke | jtiRevoke
  | oauthCodeCreate | oauthCodeMarkUsed | oauthCodeCleanup | auditLogWrite
  | oauthClientCreate | oauthClientUpdate | oauthClientDelete | execSqlFile
  deriving DecidableEq

namespace StorageOp

/-- In the order of the dispatcher's branches. -/
def all : List StorageOp := [userCreate, userUpdate, userDelete, saveSmsCode, deleteSmsCode,
  roleCreate, roleUpdate, roleDelete, groupCreate, groupUpdate, groupDelete,
  policyCreate, policyUpdate, policyDelete,
  assignRoleUser, unassignRoleUser, assignRoleGroup, unassignRoleGroup,
  addUserGroup, removeUserGroup, assignPolicy, unassignPolicy,
  refreshTokenCreate, refreshTokenRevoke, jtiRevoke,
  oauthCodeCreate, oauthCodeMarkUsed, oauthCodeCleanup, auditLogWrite,
  oauthClientCreate, oauthClientUpdate, oauthClientDelete, execSqlFile]

/-- The name the generator takes from the typedef; the `"op"` of the command. -/
def name : StorageOp → String
  | userCreate => "user_create"
  | userUpdate => "user_update"
  | userDelete => "user_delete"
  | saveSmsCode => "save_sms_code"
  | deleteSmsCode => "delete_sms_code"
  | roleCreate => "role_create"
  | roleUpdate => "role_update"
  | roleDelete => "role_delete"
  | groupCreate => "group_create"
  | groupUpdate => "group_update"
  | groupDelete => "group_delete"
  | policyCreate => "policy_create"
  | policyUpdate => "policy_update"
  | policyDelete => "policy_delete"
  | assignRoleUser => "assign_role_user"
  | unassignRoleUser => "unassign_role_user"
  | assignRoleGroup => "assign_role_group"
  | unassignRoleGroup => "unassign_role_group"
  | addUserGroup => "add_user_group"
  | removeUserGroup => "remove_user_group"
  | assignPolicy => "assign_policy"
  | unassignPolicy => "unassign_policy"
  | refreshTokenCreate => "refresh_token_create"
  | refreshTokenRevoke => "refresh_token_revoke"
  | jtiRevoke => "jti_revoke"
  | oauthCodeCreate => "oauth_code_create"
  | oauthCodeMarkUsed => "oauth_code_mark_used"
  | oauthCodeCleanup => "oauth_code_cleanup"
  | auditLogWrite => "audit_log_write"
  | oauthClientCreate => "oauth_client_create"
  | oauthClientUpdate => "oauth_client_update"
  | oauthClientDelete => "oauth_client_delete"
  | execSqlFile => "exec_sql_file"

def params : StorageOp → List Param
  | userCreate | userUpdate => [⟨"user", .struct .user⟩]
  | userDelete | roleDelete | groupDelete | policyDelete => [⟨"id", .int .uint64⟩]
  | saveSmsCode => [⟨"phone", .charPtr⟩, ⟨"code", .charPtr⟩, ⟨"expires_at", .int .int64⟩]
  | deleteSmsCode => [⟨"phone", .charPtr⟩]
  | roleCreate | roleUpdate => [⟨"role", .struct .role⟩]
  | groupCreate | groupUpdate => [⟨"group", .struct .group⟩]
  | policyCreate | policyUpdate => [⟨"policy", .struct .policy⟩]
  | assignRoleUser | unassignRoleUser => [⟨"role_id", .int .uint64⟩, ⟨"user_id", .int .uint64⟩]
  | assignRoleGroup | unassignRoleGroup => [⟨"role_id", .int .uint64⟩, ⟨"group_id", .int .uint64⟩]
  | addUserGroup | removeUserGroup => [⟨"group_id", .int .uint64⟩, ⟨"user_id", .int .uint64⟩]
  | assignPolicy | unassignPolicy =>
    [⟨"policy_id", .int .uint64⟩, ⟨"target_type", .int .enum⟩, ⟨"target_id", .int .uint64⟩]
  | refreshTokenCreate => [⟨"rt", .struct .refreshToken⟩]
  | refreshTokenRevoke => [⟨"token_hash", .charPtr⟩]
  | jtiRevoke => [⟨"jti", .charPtr⟩, ⟨"expires_at", .int .int64⟩]
  | oauthCodeCreate => [⟨"code", .struct .oauthAuthCode⟩]
  | oauthCodeMarkUsed => [⟨"code", .charPtr⟩]
  | oauthCodeCleanup => []
  | auditLogWrite => [⟨"entry", .struct .auditLogEntry⟩]
  | oauthClientCreate | oauthClientUpdate => [⟨"client", .struct .oauthClient⟩]
  | oauthClientDelete => [⟨"client_id", .charPtr⟩]
  | execSqlFile => [⟨"path", .charPtr⟩]

/-- The dispatcher's chain of `strcmp(op, …)`. -/
def ofName (text : Bytes) : Option StorageOp :=
  all.find? fun op => lit op.name == text

end StorageOp

/-- A call of a mutating storage operation. -/
structure Command where
  op : StorageOp
  args : Args op.params
  deriving DecidableEq

/-! ## §2 Integers in a document -/

/-- `yyjson_mut_obj_add_int(doc, obj, key, (int64_t)n)`, the value. -/
def addInt (n : Int) : Json := .num (signedDecimal (n.bmod (2 ^ 64)))

/-- The value of a literal yyjson reads as an integer; what is out of the 64-bit
ranges, or has a fraction or an exponent, is read as a double. -/
def integerLiteral : Bytes → Option Int
  | 45 :: ds =>
    if ds ≠ [] ∧ ds.all isDigit = true ∧ value ds ≤ 2 ^ 63 then some (-(value ds : Int)) else none
  | ds =>
    if ds ≠ [] ∧ ds.all isDigit = true ∧ value ds < 2 ^ 64 then some (value ds : Int) else none

/-- `yyjson_get_int`: the low 32 bits as an `int`, 0 for what is no integer. -/
def getInt : Option Json → Int
  | some (.num literal) => ((integerLiteral literal).getD 0).bmod (2 ^ 32)
  | _ => 0

/-! ## §3 Proxies and dispatcher -/

variable (root : Json) (name : String)

/-- The member the generator writes for a field in its list. -/
def encodeField : (k : FieldKind) → k.Value → List (Bytes × Json)
  | .int t, v => [(lit name, addInt (t.toInt v))]
  | .chars _, v => [(lit name, .str v.val)]
  | .charPtr, _ => []
  | .pointer, _ => []

def encodeRecord (listed : List String) : (fs : List Field) → Record fs → List (Bytes × Json)
  | [], _ => []
  | f :: fs, v =>
    (if f.name ∈ listed then encodeField f.name f.kind v.1 else []) ++ encodeRecord listed fs v.2

/-- `yyjson_get_str`, as a C string. -/
def getCString (v : Option Json) : Option CString :=
  match v with
  | some (.str s) => some ⟨cstr s, not_mem_cstr s⟩
  | _ => none

/-- How the dispatcher fills a field it has code for. -/
def decodeField (obj : Json) (name : String) : (k : FieldKind) → k.Value
  | .int t => t.ofInt (getInt (Json.objGet (some obj) (lit name)))
  | .chars size => Chars.copy size ((Json.getStr (Json.objGet (some obj) (lit name))).getD [])
  | .charPtr => none
  | .pointer => (0 : UInt64)

def decodeRecord (obj : Json) (listed : List String) : (fs : List Field) → Record fs
  | [] => ()
  | f :: fs =>
    (if f.name ∈ listed then decodeField obj f.name f.kind else f.kind.zero,
      decodeRecord obj listed fs)

/-- A struct argument: no member for NULL, and none for a type without a field list. -/
def encodeStruct (s : StructType) (v : Option (Record s.fields)) : List (Bytes × Json) :=
  ((listedFields s).bind fun listed =>
    v.map fun v => (lit name, Json.obj (encodeRecord listed s.fields v))).toList

/-- `<type> val; memset(…)`, filled from the member if there is one. -/
def decodeStruct (s : StructType) : Option (Record s.fields) :=
  (listedFields s).bind fun listed =>
    (Json.objGet (some root) (lit name)).map fun obj => decodeRecord obj listed s.fields

/-- The members the generator writes for an argument. -/
def encodeArg : (t : ArgType) → t.Value → List (Bytes × Json)
  | .charPtr, none => []
  | .charPtr, some v => [(lit name, .str v.val)]
  | .int t, v => [(lit name, addInt (t.toInt v))]
  | .struct s, v => encodeStruct name s v

def encodeArgs : (ps : List Param) → Args ps → List (Bytes × Json)
  | [], _ => []
  | p :: ps, v => encodeArg p.name p.type v.1 ++ encodeArgs ps v.2

def decodeArg : (t : ArgType) → t.Value
  | .charPtr => getCString (Json.objGet (some root) (lit name))
  | .int t => t.ofInt (getInt (Json.objGet (some root) (lit name)))
  | .struct s => decodeStruct root name s

def decodeArgs (root : Json) : (ps : List Param) → Args ps
  | [] => ()
  | p :: ps => (decodeArg root p.name p.type, decodeArgs root ps)

/-- The document `proxy_<op>` proposes. -/
def proxyDocument (c : Command) : Json :=
  .obj ((lit "op", .str (lit c.op.name)) :: encodeArgs c.op.params c.args)

/-- `raft_apply_dispatch`: the call of the inner backend, `none` where it is
`SSO_ERR_INVALID_PARAM` without one. -/
def raftApplyDispatch : Option Command := do
  let text ← Json.getStr (Json.objGet (some root) (lit "op"))
  let op ← StorageOp.ofName text
  return ⟨op, decodeArgs root op.params⟩

/-! ## §4 Messages -/

/-- `msg_requestvote_t`. -/
structure RequestVote where
  term : Int64
  candidateId : Int32
  lastLogIdx : Int64
  lastLogTerm : Int64
  deriving DecidableEq

/-- `raft_rpc_send_requestvote`, the document. -/
def RequestVote.document (senderId : Int32) (m : RequestVote) : Json := .obj [
  (lit "sender_id", addInt senderId.toInt), (lit "term", addInt m.term.toInt),
  (lit "candidate_id", addInt m.candidateId.toInt), (lit "last_log_idx", addInt m.lastLogIdx.toInt),
  (lit "last_log_term", addInt m.lastLogTerm.toInt)]

/-- `handle_raft_request_vote`, the message it hands to the library. -/
def RequestVote.ofDocument : RequestVote where
  term := Int64.ofInt (getInt (Json.objGet (some root) (lit "term")))
  candidateId := Int32.ofInt (getInt (Json.objGet (some root) (lit "candidate_id")))
  lastLogIdx := Int64.ofInt (getInt (Json.objGet (some root) (lit "last_log_idx")))
  lastLogTerm := Int64.ofInt (getInt (Json.objGet (some root) (lit "last_log_term")))

/-- `raft_entry_t`; `data` has the bytes of the buffer, which a NUL follows. -/
structure Entry where
  term : Int64
  id : Int32
  type : Int32
  data : Option Bytes
  deriving DecidableEq

def Entry.document (e : Entry) : Json := .obj (
  [(lit "term", addInt e.term.toInt), (lit "id", addInt e.id.toInt),
    (lit "type", addInt e.type.toInt)] ++
  (e.data.map fun d => (lit "data", Json.str (cstr d))).toList)

def Entry.ofDocument (v : Json) : Entry where
  term := Int64.ofInt (getInt (Json.objGet (some v) (lit "term")))
  id := Int32.ofInt (getInt (Json.objGet (some v) (lit "id")))
  type := Int32.ofInt (getInt (Json.objGet (some v) (lit "type")))
  data := Json.getStr (Json.objGet (some v) (lit "data"))

/-- What `calloc` leaves in an entry no element of the array was read into. -/
def Entry.zero : Entry := ⟨0, 0, 0, none⟩

/-- `msg_appendentries_t`; `entries` is empty where the pointer is NULL. -/
structure AppendEntries where
  term : Int64
  prevLogIdx : Int64
  prevLogTerm : Int64
  leaderCommit : Int64
  nEntries : Int32
  entries : List Entry
  deriving DecidableEq

/-- `raft_rpc_send_appendentries`, the document. -/
def AppendEntries.document (senderId : Int32) (m : AppendEntries) : Json := .obj [
  (lit "sender_id", addInt senderId.toInt), (lit "term", addInt m.term.toInt),
  (lit "prev_log_idx", addInt m.prevLogIdx.toInt),
  (lit "prev_log_term", addInt m.prevLogTerm.toInt),
  (lit "leader_commit", addInt m.leaderCommit.toInt), (lit "n_entries", addInt m.nEntries.toInt),
  (lit "entries", .arr ((m.entries.take m.nEntries.toInt.toNat).map Entry.document))]

/-- The loop of `handle_raft_append_entries` over the array: `n` entries, the ones
the array is too short for left as `calloc` made them. -/
def AppendEntries.readEntries (n : Int) : Option (List Json) → List Entry
  | some vs =>
    if 0 < n then
      (vs.take n.toNat).map Entry.ofDocument ++ List.replicate (n.toNat - vs.length) Entry.zero
    else []
  | none => []

/-- `handle_raft_append_entries`, the message it hands to the library. -/
def AppendEntries.ofDocument : AppendEntries where
  term := Int64.ofInt (getInt (Json.objGet (some root) (lit "term")))
  prevLogIdx := Int64.ofInt (getInt (Json.objGet (some root) (lit "prev_log_idx")))
  prevLogTerm := Int64.ofInt (getInt (Json.objGet (some root) (lit "prev_log_term")))
  leaderCommit := Int64.ofInt (getInt (Json.objGet (some root) (lit "leader_commit")))
  nEntries := Int32.ofInt (getInt (Json.objGet (some root) (lit "n_entries")))
  entries := AppendEntries.readEntries (getInt (Json.objGet (some root) (lit "n_entries")))
    (Json.getArr (Json.objGet (some root) (lit "entries")))

/-- The array has as many entries as the count says. -/
def AppendEntries.Sized (m : AppendEntries) : Prop :=
  (m.entries.length : Int) = m.nEntries.toInt

end SsoSystem.Raft
