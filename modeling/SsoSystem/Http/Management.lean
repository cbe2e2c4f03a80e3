/-
SsoSystem.Http.Management — the management endpoints that write
(src/handlers_admin.c): users, roles, groups, policies, clients and the
signing keys.

The routes of all of them need authentication, and none of the handlers asks
the permission engine; who is calling goes into the audit records only, which
are left out. Numbers are not read from the parsed document but searched for
in the text of the body (`json_int_value`), where `req_json_str_value` has cut
the text before or not. The lists and the single records that are only read
are in `Http.Routes`.
-/
import SsoSystem.Http.Login

namespace SsoSystem

open CMem Decimal Handling

/-! ## §1 Numbers -/

/-- `json_int_value`: the first place that looks like the key counts, wherever it stands. -/
def jsonIntValue (body : Bytes) (key : String) (default : Int) : Int :=
  let search := strlcpy 128 (lit "\"" ++ lit key ++ lit "\"")
  match strstr search (cstr body) with
  | none => default
  | some (_, found) =>
    let rest := (found.drop search.length).dropWhile fun c => c != 58 && c != 44
    let rest := if rest.head? = some 58 then rest.tail else rest
    atoll (rest.dropWhile fun c => c == 32 || c == 9 || c == 10)

/-- `(sso_id_t)`. -/
def idOf (n : Int) : Nat := (n % 2 ^ 64).toNat

/-- `(int)`. -/
def intOf (n : Int) : Int := n.bmod (2 ^ 32)

/-- `extract_path_id`. -/
def extractPathId (path : Bytes) (marker : String) : Nat :=
  match strstr (lit marker) (cstr path) with
  | none => 0
  | some (_, found) => idOf (atoll (found.drop (lit marker).length))

def UserStatus.ofCode : Int → UserStatus
  | 0 => .inactive
  | 1 => .active
  | 2 => .locked
  | code => .other code

def RoleStatus.ofCode : Int → RoleStatus
  | 0 => .inactive
  | 1 => .active
  | code => .other code

def GroupStatus.ofCode : Int → GroupStatus
  | 0 => .inactive
  | 1 => .active
  | code => .other code

def TargetType.ofCode : Int → TargetType
  | 0 => .user
  | 1 => .role
  | 2 => .group
  | code => .other code

def PolicyEffect.ofCode : Int → PolicyEffect
  | 0 => .deny
  | 1 => .allow
  | code => .other code

def PolicyStatus.ofCode : Int → PolicyStatus
  | 0 => .disabled
  | 1 => .enabled
  | code => .other code

def StrategyType.ofCode : Int → StrategyType
  | 1 => .functional
  | 2 => .api
  | 3 => .data
  | 4 => .rbac
  | 5 => .location
  | 6 => .abac
  | 7 => .lbac
  | code => .other code

namespace HttpRequest

variable (req : HttpRequest) (key : String) (default : Int)

/-- A text of the parsed body. -/
def text : Option Bytes := reqJsonStrValue req.toRequest (lit key)

/-- `json_int_value` before any text was read. -/
def rawInt : Int := jsonIntValue req.bodyText key default

/-- `json_int_value` after a text was read. -/
def parsedInt : Int := jsonIntValue req.bodyParsed key default

/-- A field that is only overwritten by a text of the body. -/
def overwritten (size : Nat) (old : Bytes) : Bytes :=
  match req.text key with
  | some new => strlcpy size new
  | none => old

/-- A field that is only overwritten by a number of the body that is not negative. -/
def overwrittenInt {α : Type} (key : String) (ofCode : Int → α) (old : α) : α :=
  if intOf (req.parsedInt key (-1)) ≥ 0 then ofCode (intOf (req.parsedInt key (-1))) else old

/-- The parent of a role or group, which any number but -1 overwrites. -/
def overwrittenParent (old : Nat) : Nat :=
  if idOf (req.parsedInt key (-1)) = idOf (-1) then old else idOf (req.parsedInt key (-1))

end HttpRequest

/-! ## §2 Shapes the handlers share -/

variable (env : Moment) (req : HttpRequest)

def requireBody (k : Handling) : Handling :=
  if !req.hasBody then fail 400 "Request body required" else k

/-- An error that is answered with its own text. -/
def failWith (err : SsoError) : Handling := .ret (.error 500 (ssoStrerror err))

/-- A call that is answered with a fixed text. -/
def managing (m : Mutation) (done : String) : Handling :=
  .call (.manage m) fun
    | .ok _ => ok done
    | .error err => failWith err

/-- A call that creates a record. -/
def creating (m : Mutation) (taken failed : String) (k : Nat → Handling) : Handling :=
  .call (.manage m) fun
    | .ok id => k id
    | .error .alreadyExists => fail 409 taken
    | .error _ => fail 500 failed

/-- The delete handlers. -/
def deleting (id : Nat) (missing : String) (delete : Nat → Mutation) : Handling :=
  if id = 0 then fail 400 missing else managing (delete id) "\x7b\"deleted\":true\x7d"

/-- `"status"` of a create request: the record is updated with it, and the result ignored. -/
def settingStatus (update : Int → Mutation) (k : Handling) : Handling :=
  if intOf (req.parsedInt "status" (-1)) ≥ 0 then
    .call (.manage (update (intOf (req.parsedInt "status" (-1))))) fun _ => k
  else k

/-! ## §3 Users -/

/-- `handle_create_user`. The password is not validated here. -/
def handleCreateUser : Handling :=
  requireBody req <|
    match req.text "username", req.text "password" with
    | some username, some _ =>
      let user : User :=
        { id := 0
          username := strlcpy 64 username
          phone := []
          status := .active
          passwordHash := env.pwhash
          passwordSetAt := env.now
          email := strlcpy 128 ((req.text "email").getD [])
          displayName := strlcpy 128 ((req.text "display_name").getD username) }
      creating (.userCreate user) "Username already exists" "Failed to create user" fun id =>
        .ret (.created id user.username)
    | _, _ => fail 400 "username and password required"

/-- `handle_update_user`. -/
def handleUpdateUser : Handling :=
  let userId := extractPathId req.path "/users/"
  if userId = 0 ∨ !req.hasBody then fail 400 "user_id and body required"
  else
    .call (.userGetById userId) fun
      | none => fail 404 "User not found"
      | some user =>
        managing
          (.userUpdate
            { user with
              email := req.overwritten "email" 128 user.email
              displayName := req.overwritten "display_name" 128 user.displayName
              status := req.overwrittenInt "status" UserStatus.ofCode user.status })
          "\x7b\"updated\":true\x7d"

/-- `handle_delete_user`. -/
def handleDeleteUser : Handling :=
  deleting (extractPathId req.path "/users/") "user_id required" .userDelete

/-! ## §4 Roles -/

/-- `handle_create_role`. -/
def handleCreateRole : Handling :=
  requireBody req <|
    match req.text "name" with
    | none => fail 400 "name required"
    | some name =>
      let parent := idOf (req.parsedInt "parent_role_id" 0)
      creating (.roleCreate name parent) "Role already exists" "Failed to create role" fun id =>
        settingStatus req
          (fun code =>
            .roleUpdate
              { id, name := strlcpy 64 name, parentRoleId := parent, status := .ofCode code })
          (.ret (.created id (strlcpy 64 name)))

/-- `handle_update_role`. -/
def handleUpdateRole : Handling :=
  let roleId := extractPathId req.path "/roles/"
  if roleId = 0 ∨ !req.hasBody then fail 400 "role_id and body required"
  else
    .call (.roleGetById roleId) fun
      | none => fail 404 "Role not found"
      | some role =>
        managing
          (.roleUpdate
            { role with
              name := req.overwritten "name" 64 role.name
              parentRoleId := req.overwrittenParent "parent_role_id" role.parentRoleId
              status := req.overwrittenInt "status" RoleStatus.ofCode role.status })
          "\x7b\"updated\":true\x7d"

/-- `handle_delete_role`. -/
def handleDeleteRole : Handling :=
  deleting (extractPathId req.path "/roles/") "role_id required" .roleDelete

/-- The call on the user of the body, or else on its group. -/
def onMember (onUser onGroup : Nat → Mutation) (done : String) : Handling :=
  if idOf (req.rawInt "user_id" 0) ≠ 0 then managing (onUser (idOf (req.rawInt "user_id" 0))) done
  else if idOf (req.rawInt "group_id" 0) ≠
    0 then managing (onGroup (idOf (req.rawInt "group_id" 0))) done
  else fail 400 "user_id or group_id required"

/-- `handle_assign_role`. -/
def handleAssignRole : Handling :=
  let roleId := extractPathId req.path "/roles/"
  if roleId = 0 then fail 400 "Invalid role ID in path"
  else
    requireBody req <|
      onMember req (.roleAssignToUser roleId) (.roleAssignToGroup roleId)
        "\x7b\"assigned\":true\x7d"

/-- `handle_unassign_role`. -/
def handleUnassignRole : Handling :=
  let roleId := extractPathId req.path "/roles/"
  if roleId = 0 ∨ !req.hasBody then fail 400 "role_id and body required"
  else
    onMember req (.roleUnassignFromUser roleId) (.roleUnassignFromGroup roleId)
      "\x7b\"unassigned\":true\x7d"

/-! ## §5 Policies -/

/-- `handle_create_policy`. -/
def handleCreatePolicy : Handling :=
  requireBody req <|
    match req.text "name" with
    | none => fail 400 "name required"
    | some name =>
      creating
        (.policyCreate name (.ofCode (intOf (req.parsedInt "strategy_type" 1)))
          (.ofCode (intOf (req.parsedInt "effect" 1))) (intOf (req.parsedInt "priority" 50))
          ((req.text "rules").getD (lit "\x7b\x7d")))
        "Policy already exists" "Failed to create policy" fun id =>
          .ret (.created id (strlcpy 64 name))

/-- `handle_update_policy`. -/
def handleUpdatePolicy : Handling :=
  let policyId := extractPathId req.path "/policies/"
  if policyId = 0 ∨ !req.hasBody then fail 400 "policy_id and body required"
  else
    .call (.policyGetById policyId) fun
      | none => fail 404 "Policy not found"
      | some policy =>
        managing
          (.policyUpdate
            { policy with
              name := req.overwritten "name" 64 policy.name
              rules := req.overwritten "rules" 8192 policy.rules
              effect := req.overwrittenInt "effect" PolicyEffect.ofCode policy.effect
              priority := req.overwrittenInt "priority" id policy.priority
              status := req.overwrittenInt "status" PolicyStatus.ofCode policy.status })
          "\x7b\"updated\":true\x7d"

/-- `handle_delete_policy`. -/
def handleDeletePolicy : Handling :=
  deleting (extractPathId req.path "/policies/") "policy_id required" .policyDelete

/-- `handle_assign_policy`. The id in the path is not looked at: 0 is assigned too. -/
def handleAssignPolicy : Handling :=
  requireBody req <|
    if idOf (req.rawInt "target_id" 0) = 0 then fail 400 "target_id required"
    else
      managing
        (.policyAssignTo (extractPathId req.path "/policies/")
          (.ofCode (intOf (req.rawInt "target_type" 0))) (idOf (req.rawInt "target_id" 0)))
        "\x7b\"assigned\":true\x7d"

/-- `handle_unassign_policy`. -/
def handleUnassignPolicy : Handling :=
  let policyId := extractPathId req.path "/policies/"
  if policyId = 0 ∨ !req.hasBody then fail 400 "policy_id and body required"
  else if idOf (req.rawInt "target_id" 0) = 0 ∨ intOf (req.rawInt "target_type" (-1)) < 0 then
    fail 400 "target_id and target_type required"
  else
    managing
      (.policyUnassignFrom policyId (.ofCode (intOf (req.rawInt "target_type" (-1))))
        (idOf (req.rawInt "target_id" 0)))
      "\x7b\"unassigned\":true\x7d"

/-! ## §6 Groups -/

/-- `handle_create_group`. -/
def handleCreateGroup : Handling :=
  requireBody req <|
    match req.text "name" with
    | none => fail 400 "name required"
    | some name =>
      let parent := idOf (req.parsedInt "parent_group_id" 0)
      creating (.groupCreate name parent) "Group already exists" "Failed to create group" fun id =>
        settingStatus req
          (fun code =>
            .groupUpdate
              { id, name := strlcpy 64 name, parentGroupId := parent, status := .ofCode code })
          (.ret (.created id (strlcpy 64 name)))

/-- `handle_update_group`. -/
def handleUpdateGroup : Handling :=
  let groupId := extractPathId req.path "/groups/"
  if groupId = 0 ∨ !req.hasBody then fail 400 "group_id and body required"
  else
    .call (.groupGetById groupId) fun
      | none => fail 404 "Group not found"
      | some group =>
        managing
          (.groupUpdate
            { group with
              name := req.overwritten "name" 64 group.name
              parentGroupId := req.overwrittenParent "parent_group_id" group.parentGroupId
              status := req.overwrittenInt "status" GroupStatus.ofCode group.status })
          "\x7b\"updated\":true\x7d"

/-- `handle_delete_group`. -/
def handleDeleteGroup : Handling :=
  deleting (extractPathId req.path "/groups/") "group_id required" .groupDelete

/-- `handle_add_group_member`. -/
def handleAddGroupMember : Handling :=
  let groupId := extractPathId req.path "/groups/"
  if groupId = 0 ∨ !req.hasBody then fail 400 "group_id and body required"
  else if idOf (req.rawInt "user_id" 0) = 0 then fail 400 "user_id required"
  else managing (.groupAddUser groupId (idOf (req.rawInt "user_id" 0))) "\x7b\"added\":true\x7d"

/-- What stands behind the last slash of a path; `none` without one. -/
def afterLastSlash (path : Bytes) : Option Bytes :=
  if 47 ∈ cstr path then some ((cstr path).reverse.takeWhile (· != 47)).reverse else none

/-- `handle_remove_group_member`. -/
def handleRemoveGroupMember : Handling :=
  let groupId := extractPathId req.path "/groups/"
  match afterLastSlash req.path with
  | none => fail 400 "invalid path"
  | some last =>
    if groupId = 0 then fail 400 "invalid path"
    else managing (.groupRemoveUser groupId (idOf (atoll last))) "\x7b\"removed\":true\x7d"

/-! ## §7 Clients -/

/-- `handle_create_client`. -/
def handleCreateClient : Handling :=
  requireBody req <|
    match req.text "client_id", req.text "client_secret", req.text "redirect_uris" with
    | some clientId, some _, some redirectUris =>
      let client : OauthClient :=
        { id := 0
          clientId := strlcpy 64 clientId
          clientSecretHash := env.pwhash
          redirectUris := strlcpy 512 redirectUris
          allowedGrantTypes := req.overwritten "allowed_grant_types" 128 []
          tokenTtlMs := Int64.ofInt (req.parsedInt "token_ttl_ms" 3600000)
          status := intOf (req.parsedInt "status" 1) }
      .call (.oauthClientCreate client) fun
        | .ok =>
          .ret (.done (strlcpy 256
            (lit "\x7b\"client_id\":\"" ++ client.clientId ++ lit "\",\"created\":true\x7d")))
        | .alreadyExists => fail 409 "Client ID already exists"
        | _ => fail 500 "Failed to create client"
    | _, _, _ => fail 400 "client_id, client_secret, and redirect_uris required"

/-- The client id in a path: up to 63 bytes, ended by a slash. -/
def pathClientId (path : Bytes) : Option Bytes :=
  (strstr (lit "/clients/") (cstr path)).map fun found =>
    (strlcpy 64 (found.2.drop 9)).takeWhile (· != 47)

/-- `handle_update_client`. -/
def handleUpdateClient : Handling :=
  match pathClientId req.path with
  | none => fail 400 "client_id required in path"
  | some clientId =>
    if clientId = [] ∨ !req.hasBody then fail 400 "client_id and body required"
    else
      .call (.oauthClientGet clientId) fun
        | none => fail 404 "Client not found"
        | some client =>
          let ttl := Int64.ofInt (req.parsedInt "token_ttl_ms" (-1))
          .call (.oauthClientUpdate
            { client with
              redirectUris := req.overwritten "redirect_uris" 512 client.redirectUris
              allowedGrantTypes :=
                req.overwritten "allowed_grant_types" 128 client.allowedGrantTypes
              status := req.overwrittenInt "status" id client.status
              tokenTtlMs := if ttl ≥ 0 then ttl else client.tokenTtlMs
              clientSecretHash :=
                match req.text "client_secret" with
                | some (_ :: _) => env.pwhash
                | _ => client.clientSecretHash }) fun
            | .ok => ok "\x7b\"updated\":true\x7d"
            | err => failWith err

/-- `handle_delete_client`. -/
def handleDeleteClient : Handling :=
  match pathClientId req.path with
  | none => fail 400 "client_id required in path"
  | some clientId =>
    if clientId = [] then fail 400 "client_id required"
    else
      .call (.oauthClientDelete clientId) fun
        | .ok => ok "\x7b\"deleted\":true\x7d"
        | err => failWith err

/-! ## §8 Signing keys -/

/-- `token_manager_get_active_kid`, with `""` for NULL. -/
def TokenManager.activeKid (m : TokenManager) : Bytes :=
    if m.active.populated then m.active.kid else []

/-- The end of `handle_rotate_keys`. -/
def rotated (oldKid : Bytes) : SsoError → Handling
  | .ok =>
    .call .authContext fun ctx =>
      .ret (.done (strlcpy 256
        (lit "\x7b\"status\":\"ok\",\"active_kid\":\"" ++ ctx.tokens.activeKid ++
          lit "\",\"previous_kid\":\"" ++ oldKid ++ lit "\"\x7d")))
  | err => failWith err

/-- `handle_rotate_keys`. -/
def handleRotateKeys (P : Platform) (req : HttpRequest) : Handling :=
  requireBody req <| .call .authContext fun ctx =>
      match ctx.tokens.mode with
      | .hs256 =>
        match req.text "secret" with
        | none => fail 400 "\"secret\" required for HS256 rotation"
        | some secret =>
          .call (.tokenRotateKey (secretBuffer secret)) fun err => rotated ctx.tokens.activeKid err
      | .rs256 =>
        match req.text "private_key" with
        | none => fail 400 "\"private_key\" required for RS256 rotation"
        | some priv =>
          .call (.tokenRotateKeyRs256 (P.loadRsaKeys priv (req.text "public_key"))) fun err =>
            rotated ctx.tokens.activeKid err
      | .crydi3 => fail 400 "Rotation not supported for current signing mode"

end SsoSystem
