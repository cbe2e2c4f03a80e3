/-
SsoSystem.Http.Checks — the permission check endpoints
(src/handlers_check.c).

Anyone who is logged in may ask about anyone: a `user_id` in the body comes
before the caller. The seven handlers differ in the texts they need and in the
checker they call (`checking`); the generic one fills one context with
everything the body has, and frees a record it did not allocate, so it does
not come back when it was given one.
-/
import SsoSystem.Http.Management
import SsoSystem.Permission.ContextMemory

namespace SsoSystem

open CMem Handling

/-- The user a check is about: the one in the body, or else the caller. -/
def checkedUser (fromBody : Int) (auth : AuthUser) : Nat :=
  if idOf fromBody = 0 then auth.1.id else idOf fromBody

/-- The common end of the seven handlers. -/
def checking (P : Platform) (env : Moment) (req : HttpRequest) (auth : AuthUser)
    (check : CheckRequest) :
    Handling :=
  let uid := checkedUser (req.parsedInt "user_id" 0) auth
  if uid = 0 then fail 400 "user_id or authentication required"
  else
    .call (.permCheck P.vendor env.heap env.monotonicMs uid check) fun
      | none => .stuck
      | some result =>
        if result.err ≠ .ok then failWith result.err
        else .ret (.checked result.allowed result.fieldFilter)

section Handlers

variable (P : Platform) (env : Moment) (req : HttpRequest) (auth : AuthUser)

/-- `handle_check_functional`. -/
def handleCheckFunctional : Handling :=
  requireBody req <|
    match req.text "function_code" with
    | none => fail 400 "function_code required"
    | some functionCode => checking P env req auth (.function functionCode)

/-- `handle_check_api`. -/
def handleCheckApi : Handling :=
  requireBody req <|
    match req.text "method", req.text "path" with
    | some method, some path => checking P env req auth (.api method path)
    | _, _ => fail 400 "method and path required"

/-- `handle_check_data`. -/
def handleCheckData : Handling :=
  requireBody req <|
    match req.text "resource_type" with
    | none => fail 400 "resource_type required"
    | some resourceType =>
      checking P env req auth (.data resourceType ((req.text "record").map (·, env.recordAddr)))

/-- `handle_check_rbac`. -/
def handleCheckRbac : Handling :=
  requireBody req <|
    match req.text "role_name" with
    | none => fail 400 "role_name required"
    | some roleName => checking P env req auth (.rbac roleName)

/-- `handle_check_location`. -/
def handleCheckLocation : Handling :=
  requireBody req <|
    match req.text "source_ip" with
    | none => fail 400 "source_ip required"
    | some sourceIp => checking P env req auth (.location sourceIp (req.text "geo_country"))

/-- `handle_check_lbac`. -/
def handleCheckLbac : Handling :=
  requireBody req <|
    match req.text "user_labels", req.text "resource_label" with
    | some userLabels, some resourceLabel =>
        checking P env req auth (.lbac userLabels resourceLabel)
    | _, _ => fail 400 "user_labels and resource_label required"

/-- `handle_check_abac`, which needs no text at all. -/
def handleCheckAbac : Handling :=
  requireBody req <|
    checking P env req auth
      (.abac (req.text "subject_attrs") (req.text "resource_attrs") (req.text "action"))

/-- What the body of a generic check has. -/
def genericCheck : GenericCheck where
  functionCode := req.text "function_code"
  apiMethod := req.text "api_method"
  apiPath := req.text "api_path"
  resourceType := req.text "resource_type"
  record := (req.text "record").map (·, env.recordAddr)
  roleName := req.text "role_name"
  sourceIp := req.text "source_ip"
  lbacUserLabels := req.text "lbac_user_labels"
  lbacResourceLabel := req.text "lbac_resource_label"
  abacSubjectAttrs := req.text "abac_subject_attrs"
  abacResourceAttrs := req.text "abac_resource_attrs"
  abacAction := req.text "abac_action"
  environment := req.text "environment"

/-- `handle_check_permission`. -/
def handleCheckPermission : Handling :=
  requireBody req <|
    let uid := checkedUser (req.rawInt "user_id" 0) auth
    if uid = 0 then fail 400 "user_id or authentication required"
    else
      .call (.userGetById uid) fun
        | none => fail 404 "User not found"
        | some user =>
          let check := genericCheck env req
          .call (.evaluate P.vendor (check.heap env.heap) env.monotonicMs (check.context user)) fun
            | none => .stuck
            | some (allowed, ctx) =>
              -- The pointers of the union are freed; the context owns none of them.
              match ctx.destroy with
              | none => .stuck
              | some _ => .ret (.checked allowed ctx.fieldFilter)

end Handlers

end SsoSystem
