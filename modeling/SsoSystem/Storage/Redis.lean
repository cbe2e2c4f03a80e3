/-
SsoSystem.Storage.Redis — entities kept as Redis hashes (src/storage_redis.c).

Every create and update pastes the fields it writes into one command text
(`redis_hash_set`) and hands that text to hiredis as the FORMAT of a command.
Every get reads the hash back field by field. What hiredis makes of a format
and whether Redis takes an `EXPIRE` stand outside the source, so they are the
`Server`; the commands with their own format (`"SET %s %s"`, `"HGETALL %s"`)
pass each argument as one word.

A create or update is one line of the tables of §4: its key, the fields it
writes with the buffer each number is printed into, and the keys it keeps
beside the hash. `Op.run` is the body they share.
-/
import SsoSystem.Lib.Decimal
import SsoSystem.Lib.Words
import SsoSystem.Storage.Records
import SsoSystem.Types

namespace SsoSystem

open CMem Decimal Words

/-! ## §1 Values as texts -/

/-- The cast to `int` or `long long` before a number is printed. -/
def IntType.signed : (t : IntType) → t.Value → Int
  | .bool, v => (Bool.toNat v : Int)
  | .int, v => Int32.toInt v
  | .enum, v => (UInt32.toNat v : Int).bmod UInt32.size
  | .int64, v => Int64.toInt v
  | .uint64, v => (UInt64.toNat v : Int).bmod UInt64.size

/-- A field as `"%lld"`, `"%d"` or `"%s"` prints it; no pointer is printed. -/
def FieldKind.print : (k : FieldKind) → k.Value → Bytes
  | .int t, v => signedDecimal (t.signed v)
  | .chars _, v => Subtype.val v
  | .charPtr, _ => []
  | .pointer, _ => []

/-- `atoi`, `atoll` or `sso_strlcpy` into a field, by its type. -/
def FieldKind.read : (k : FieldKind) → Bytes → k.Value
  | .int t, text => t.ofInt (atoll text)
  | .chars size, text => Chars.copy size text
  | .charPtr, _ => none
  | .pointer, _ => (0 : UInt64)

/-- The text of the field with a name. -/
def Record.printed {fs : List Field} (rec : Record fs) (name : String) : Bytes :=
  match fs.find? (fun f => f.name == name) with
  | some f => f.kind.print (rec.at f)
  | none => []

namespace Redis

/-! ## §2 The database -/

inductive Value where
  | str (text : Bytes)
  /-- A field counts from its first entry. -/
  | hash (fields : List (Bytes × Bytes))
  | list (items : List Bytes)
  deriving DecidableEq

/-- The keys with their values; a key counts from its first entry. -/
abbrev Db := List (Bytes × Value)

variable (srv : Server) (db : Db)

/-- `EXISTS`. -/
def keyExists (key : Bytes) : Bool := (db.lookup key).isSome

/-- `INCR`: the integer of the reply, which is 0 in an error reply. -/
def incr (key : Bytes) : Int × Db :=
  match db.lookup key with
  | none => (1, (key, .str (lit "1")) :: db)
  | some (.str text) =>
    -- Redis takes a number only as it prints it itself
    if signedDecimal (atoll text) = text ∧ atoll text < 2 ^ 63 - 1 then
      (atoll text + 1, (key, .str (signedDecimal (atoll text + 1))) :: db)
    else (0, db)
  | some _ => (0, db)

/-- `SET`, whatever the key held. -/
def set (key text : Bytes) : Db := (key, .str text) :: db

/-- `RPUSH`; its reply is not looked at. -/
def rpush (key item : Bytes) : Db :=
  match db.lookup key with
  | none => (key, .list [item]) :: db
  | some (.list items) => (key, .list (items ++ [item])) :: db
  | some _ => db

/-- `HGETALL`; `none` is an error reply. -/
def hgetall (key : Bytes) : Option (List (Bytes × Bytes)) :=
  match db.lookup key with
  | none => some []
  | some (.hash fields) => some fields
  | some _ => none

/-- What a hash write was: the database after it, its key and its pairs. -/
structure HashWrite where
  db : Db
  key : Bytes
  pairs : List (Bytes × Bytes)
  deriving DecidableEq

/-- `HMSET` on the words of a command; `none` is an error reply. -/
def hmset : List Bytes → Option HashWrite
  | name :: key :: rest => do
    guard (name = lit "HMSET")
    let pairs ← pairUp rest
    guard (pairs ≠ [])
    let old ← hgetall db key
    -- a later pair for the same field wins
    pure ⟨(key, .hash (pairs.reverse ++ old)) :: db, key, pairs⟩
  | _ => none

/-! ## §3 The hash helper -/

/-- What the source calls: hiredis, which makes words of a command format (or
rejects it), and whether the server takes an `EXPIRE`. -/
structure Server where
  format : Bytes → Option (List Bytes)
  expire : Bool

/-- A format without directives is split at spaces. -/
def Server.SplitsAtSpaces : Prop :=
  ∀ cmd : Bytes, (37 : UInt8) ∉ cmd → srv.format cmd = some (words 32 cmd)

/-- `CMDKEYBUF`. -/
def cmdKeyBuf : Nat := 1024

/-- The loop of `redis_hash_set`. -/
def appendPairs (cmd : Bytes) : List (Bytes × Bytes) → Option Bytes
  | [] => some cmd
  | (field, val) :: rest =>
    let cmd := cmd ++ (32 :: field ++ 32 :: val)
    if cmdKeyBuf ≤ cmd.length then none else appendPairs cmd rest

/-- The text `redis_hash_set` builds; `none` is a full buffer. -/
def hashSetCommand (key : Bytes) (pairs : List (Bytes × Bytes)) : Option Bytes :=
  let cmd := lit "HMSET" ++ 32 :: key
  if cmdKeyBuf ≤ cmd.length then none else appendPairs cmd pairs

/-- `redis_hash_set`; `none` is `SSO_ERR_STORAGE`. -/
def hashSet (key : Bytes) (pairs : List (Bytes × Bytes)) :
    Option HashWrite := do
  let cmd ← hashSetCommand key pairs
  let argv ← srv.format cmd
  hmset db argv

/-! ## §4 The entities and their operations -/

inductive Entity where
  | user | role | group | policy | oauthCode | oauthClient | refreshToken
  deriving DecidableEq

namespace Entity

def struct : Entity → StructType
  | .user => .user
  | .role => .role
  | .group => .group
  | .policy => .policy
  | .oauthCode => .oauthAuthCode
  | .oauthClient => .oauthClient
  | .refreshToken => .refreshToken

variable (e : Entity) (db : Db)

/-- The fields of its C struct. -/
def fields : List Field := e.struct.fields

/-- The field an entity is found by. -/
def keyField : Entity → Field
  | .user | .role | .group | .policy => ⟨"id", .int .uint64⟩
  | .oauthCode => ⟨"code", .chars 128⟩
  | .oauthClient => ⟨"client_id", .chars 64⟩
  | .refreshToken => ⟨"token_hash", .chars 128⟩

/-- What stands before it in the key. -/
def keyStart : Entity → String
  | .user => "user:id:"
  | .role => "role:id:"
  | .group => "group:id:"
  | .policy => "policy:id:"
  | .oauthCode => "oauth:code:"
  | .oauthClient => "oauth:client:"
  | .refreshToken => "refresh_token:"

/-- The get functions by id copy the id they were asked for. -/
def preset : Entity → Bool
  | .user | .role | .group | .policy => true
  | _ => false

/-- The `_from_hash` functions answer `SSO_ERR_NOT_FOUND` for an empty reply. -/
def checksEmpty : Entity → Bool
  | .role | .group | .policy => true
  | _ => false

/-- The field names the get function looks for. -/
def readNames : Entity → List String
  | .user => ["username", "phone", "password_hash", "email", "display_name", "status",
      "created_at", "updated_at", "attributes", "mfa_enabled", "mfa_secret"]
  | .role => ["id", "name", "description", "parent_role_id", "status", "created_at", "updated_at"]
  | .group =>
    ["id", "name", "description", "parent_group_id", "status", "created_at", "updated_at"]
  | .policy => ["id", "name", "strategy_type", "effect", "priority", "rules", "status",
      "created_at", "updated_at"]
  | .oauthCode => ["code", "client_id", "user_id", "redirect_uri", "scope", "nonce",
      "code_challenge", "code_challenge_method", "expires_at", "used"]
  | .oauthClient => ["id", "client_id", "client_secret_hash", "redirect_uris", "app_name",
      "app_description", "app_logo_url", "allowed_scopes", "allowed_grant_types",
      "token_ttl_ms", "status", "created_at", "updated_at"]
  | .refreshToken => ["token_hash", "user_id", "client_id", "expires_at", "issued_at", "revoked"]

/-- The key of an entity. -/
def key (arg : e.keyField.kind.Value) : Bytes :=
  lit e.keyStart ++ e.keyField.kind.print arg

/-- The field is copied from the argument of the get function. -/
def FromArg (f : Field) : Prop := e.preset = true ∧ f = e.keyField

instance (f : Field) : Decidable (e.FromArg f) :=
  inferInstanceAs (Decidable (e.preset = true ∧ f = e.keyField))

/-- One field of the struct a get function fills in. -/
def readField (hash : List (Bytes × Bytes)) (arg : e.keyField.kind.Value)
    (f : Field) : f.kind.Value :=
  if h : e.FromArg f then h.2 ▸ arg
  else if f.name ∈ e.readNames then
    match hash.lookup (lit f.name) with
    | some text => f.kind.read text
    | none => f.kind.zero
  else f.kind.zero

/-- `redis_user_get_by_id`, `redis_oauth_code_get` and the others. -/
def get (arg : e.keyField.kind.Value) : Except SsoError (Record e.fields) :=
  match hgetall db (e.key arg) with
  | none => .error .storage
  | some hash =>
    if e.checksEmpty = true ∧ hash = [] then .error .notFound
    else .ok (Record.build e.fields (e.readField hash arg))

end Entity

/-- A pair of `redis_hash_set`: the field of the hash, the struct field its text
comes from, and the size of the buffer a number is printed into. -/
structure Written where
  name : String
  source : String
  size : Option Nat

def Written.text (name : String) : Written := ⟨name, name, none⟩

def Written.num (name : String) (size : Nat) : Written := ⟨name, name, some size⟩

/-- The value pasted into the command. -/
def Written.value {fs : List Field} (w : Written) (rec : Record fs) : Bytes :=
  match w.size with
  | none => rec.printed w.source
  | some size => (rec.printed w.source).take (size - 1)

/-- The functions that write an entity. -/
inductive Op where
  | userCreate | userUpdate | roleCreate | roleUpdate | groupCreate | groupUpdate
  | policyCreate | policyUpdate | oauthCodeCreate | oauthClientCreate | oauthClientUpdate
  | refreshTokenCreate
  deriving DecidableEq

namespace Op

def all : List Op :=
  [.userCreate, .userUpdate, .roleCreate, .roleUpdate, .groupCreate, .groupUpdate,
    .policyCreate, .policyUpdate, .oauthCodeCreate, .oauthClientCreate, .oauthClientUpdate,
    .refreshTokenCreate]

def entity : Op → Entity
  | .userCreate | .userUpdate => .user
  | .roleCreate | .roleUpdate => .role
  | .groupCreate | .groupUpdate => .group
  | .policyCreate | .policyUpdate => .policy
  | .oauthCodeCreate => .oauthCode
  | .oauthClientCreate | .oauthClientUpdate => .oauthClient
  | .refreshTokenCreate => .refreshToken

/-- The pairs of the call of `redis_hash_set`, in their order. -/
def written : Op → List Written
  | .userCreate => [
      -- the source prints the status here
      ⟨"id", "status", some 16⟩, .text "username", .text "phone", .text "password_hash",
      .text "email", .text "display_name", .num "status" 16, .num "created_at" 32,
      .num "updated_at" 32, .text "attributes", .num "mfa_enabled" 8, .text "mfa_secret"]
  | .userUpdate => [.text "phone", .text "password_hash", .text "email", .text "display_name",
      .num "status" 16, .num "updated_at" 32, .text "attributes", .num "mfa_enabled" 8,
      .text "mfa_secret"]
  | .roleCreate => [.num "id" 64, .text "name", .text "description", .num "parent_role_id" 64,
      .num "status" 16, .num "created_at" 32, .num "updated_at" 32]
  | .roleUpdate => [.text "name", .text "description", .num "parent_role_id" 64, .num "status" 16,
      .num "updated_at" 32]
  | .groupCreate => [.num "id" 64, .text "name", .text "description", .num "parent_group_id" 64,
      .num "status" 16, .num "created_at" 32, .num "updated_at" 32]
  | .groupUpdate => [.text "name", .text "description", .num "parent_group_id" 64, .num "status" 16,
      .num "updated_at" 32]
  | .policyCreate => [.num "id" 64, .text "name", .num "strategy_type" 16, .num "effect" 16,
      .num "priority" 16, .text "rules", .num "status" 16, .num "created_at" 32,
      .num "updated_at" 32]
  | .policyUpdate => [.text "name", .num "strategy_type" 16, .num "effect" 16, .num "priority" 16,
      .text "rules", .num "status" 16, .num "updated_at" 32]
  | .oauthCodeCreate => [
      .text "code", .text "client_id", .num "user_id" 64, .text "redirect_uri", .text "scope",
      .text "nonce", .text "code_challenge", .text "code_challenge_method",
      .num "expires_at" 32, .num "used" 4]
  | .oauthClientCreate => [
      .num "id" 64, .text "client_id", .text "client_secret_hash", .text "redirect_uris",
      .text "app_name", .text "app_description", .text "app_logo_url", .text "allowed_scopes",
      .text "allowed_grant_types", .num "token_ttl_ms" 32, .num "status" 16,
      .num "created_at" 32, .num "updated_at" 32]
  | .oauthClientUpdate => [.text "client_secret_hash", .text "redirect_uris", .text "app_name",
      .text "app_description", .text "app_logo_url", .text "allowed_scopes",
      .text "allowed_grant_types", .num "token_ttl_ms" 32, .num "status" 16, .num "updated_at" 32]
  | .refreshTokenCreate => [
      .text "token_hash", .num "user_id" 64, .text "client_id", .num "expires_at" 32,
      .num "issued_at" 32, .num "revoked" 4]

/-- The counter a create takes its id from (`redis_next_id`). -/
def counter : Op → Option Bytes
  | .userCreate => some (lit "user:next_id")
  | .roleCreate => some (lit "role:next_id")
  | .groupCreate => some (lit "group:next_id")
  | .policyCreate => some (lit "policy:next_id")
  | .oauthClientCreate => some (lit "oauth:client:next_id")
  | _ => none

/-- The list a create appends the id to. -/
def listKey : Op → Option Bytes
  | .userCreate => some (lit "user:list")
  | .roleCreate => some (lit "role:list")
  | .groupCreate => some (lit "group:list")
  | .policyCreate => some (lit "policy:list")
  | .oauthClientCreate => some (lit "oauth:clients:list")
  | _ => none

variable (op : Op) (srv : Server) (db : Db)

/-- The values of the struct an operation is given. -/
abbrev Rec : Type := Record op.entity.fields

/-- The key of the entity's hash. -/
def key (rec : op.Rec) : Bytes := op.entity.key (rec.at op.entity.keyField)

/-- The pairs of the hash write. -/
def pairs (rec : op.Rec) : List (Bytes × Bytes) :=
  op.written.map fun w => (lit w.name, w.value rec)

/-- The name and phone keys of a user: an empty one has none. -/
def userKeys (name phone : Bytes) : List Bytes :=
  (if name = [] then [] else [lit "user:name:" ++ name]) ++
    (if phone = [] then [] else [lit "user:phone:" ++ phone])

/-- The keys that must not exist (`redis_check_unique`). -/
def uniqueKeys (rec : op.Rec) : List Bytes :=
  match op with
  | .userCreate => userKeys (rec.printed "username") (rec.printed "phone")
  | .roleCreate => [lit "role:name:" ++ rec.printed "name"]
  | .groupCreate => [lit "group:name:" ++ rec.printed "name"]
  | .policyCreate => [lit "policy:name:" ++ rec.printed "name"]
  | .oauthClientCreate => [lit "oauth:client:" ++ rec.printed "client_id"]
  | _ => []

/-- The keys set beside the hash, with their texts. -/
def indexes (rec : op.Rec) : List (Bytes × Bytes) :=
  match op with
  | .userCreate =>
    (userKeys (rec.printed "username") (rec.printed "phone")).map fun k => (k, rec.printed "id")
  | .roleCreate => [(lit "role:name:" ++ rec.printed "name", rec.printed "id")]
  | .groupCreate => [(lit "group:name:" ++ rec.printed "name", rec.printed "id")]
  | .policyCreate => [(lit "policy:name:" ++ rec.printed "name", rec.printed "id")]
  | .oauthClientCreate =>
    [(lit "oauth:client:id:" ++ rec.printed "id", rec.printed "client_id")]
  | _ => []

/-- Only an authorization code gets a lifetime. -/
def expires : Op → Bool
  | .oauthCodeCreate => true
  | _ => false

/-- `redis_next_id` into the struct. -/
def assignId (rec : op.Rec) : Db × op.Rec :=
  match op.counter with
  | none => (db, rec)
  | some counter =>
    ((incr db counter).2, rec.put ⟨"id", .int .uint64⟩ (UInt64.ofInt (incr db counter).1))

/-- The writes behind the hash write; their replies are not looked at. -/
def bookkeep (rec : op.Rec) : Db :=
  let db := (op.indexes rec).foldl (fun db i => set db i.1 i.2) db
  match op.listKey with
  | none => db
  | some list => rpush db list (rec.printed "id")

/-- What a write command touched: a field of a hash, or a whole key. -/
inductive Touch where
  | field (key name : Bytes)
  | key (key : Bytes)
  deriving DecidableEq

/-- The keys an operation keeps beside the hash. -/
def sideKeys (rec : op.Rec) : List Bytes :=
  op.counter.toList ++ (op.indexes rec).map Prod.fst ++ op.listKey.toList

/-- What a run that returns `SSO_OK` leaves: the struct with its id, the
database, and what was touched. -/
structure Done (op : Op) where
  record : op.Rec
  db : Db
  touched : List Touch

/-- The run behind a hash write. -/
def finish (op : Op) (rec : op.Rec) (write : HashWrite) : op.Done where
  record := rec
  db := op.bookkeep write.db rec
  touched := write.pairs.map (fun p => .field write.key p.1) ++ (op.sideKeys rec).map .key

/-- `redis_user_create`, `redis_user_update` and the others. -/
def run (rec : op.Rec) : Except SsoError op.Done :=
  if (op.uniqueKeys rec).any (keyExists db) then .error .alreadyExists
  else
    let given := op.assignId db rec
    match hashSet srv given.1 (op.key given.2) (op.pairs given.2) with
    | none => .error .storage
    | some write =>
      if op.expires && !srv.expire then .error .storage else .ok (op.finish given.2 write)

end Op

end Redis

end SsoSystem
