/-
SsoSystem.Permission.Engines — several contexts in one process: what the
permission engines share (`perm_engine_create`, `audit_log_decision` and the
statics of src/permission.c, `rbac_init` of strategies/rbac_perm.c).

Each engine has its own caches, but the strategy objects are statics that
every new engine initialises again: the role strategy asks the store of the
context that was set up last. The audit settings, the open audit file and the
state of its HMAC chain are statics too.

The times, the size of the audit file and whether it can be opened come from
outside (`AuditMoment`), and so does the text of the trace. Renaming of
rotated files, the copy of an entry in the store and a context without
configuration are left out.
-/
import SsoSystem.Lib.Decimal
import SsoSystem.Lib.Run
import SsoSystem.Permission.Check
import SsoSystem.Token.Base64Url

namespace SsoSystem

open CMem Decimal

/-! ## §1 The audit log -/

/-- The audit settings of `sso_config_t`. -/
structure AuditSettings where
  path : Bytes
  secret : Bytes
  maxSizeMb : Nat
  rotateDaily : Bool

/-- The `s_audit_*` statics; `file` is the path the open file was opened with. -/
structure AuditLog where
  path : Bytes
  secret : Bytes
  maxSizeMb : Nat
  rotateDaily : Bool
  lastYday : Option Nat
  hmacPrev : Bytes
  file : Option Bytes
  statCount : Nat

/-- The statics before the first engine. -/
def AuditLog.initial : AuditLog where
  path := lit "audit.log"
  secret := []
  maxSizeMb := 10
  rotateDaily := false
  lastYday := none
  hmacPrev := List.replicate 32 0
  file := none
  statCount := 0

/-- What an entry finds: the clock, the day of the year, the size of the file at the audit
path, whether a file can be opened, and the text of the trace. -/
structure AuditMoment where
  timestampMs : UInt64
  durationMs : UInt64
  yday : Nat
  fileSize : Option Nat
  openOk : Bool
  /-- The trace of the thread; where it is set is not modelled, so it is any text. -/
  trace : Bytes

/-- A line, with the path of the file it goes to. -/
structure AuditLine where
  file : Bytes
  text : Bytes
  deriving DecidableEq, Repr

namespace AuditLog

variable (hmac : Bytes → Bytes → Bytes) (a : AuditLog) (m : AuditMoment) (userId : Nat)
    (allowed cacheHit : Bool)

/-- The end of `perm_engine_create`: the settings of the new context; an empty path leaves
the path there was. -/
def configure (cfg : AuditSettings) (yday : Nat) : AuditLog :=
  { a with
    path := if cstr cfg.path = [] then a.path else strlcpy 256 cfg.path
    secret := strlcpy 128 cfg.secret
    maxSizeMb := cfg.maxSizeMb
    rotateDaily := cfg.rotateDaily
    lastYday := some yday }

/-- `rotate_audit_log`: every hundredth call may close the file. -/
def rotate : AuditLog :=
  let a := { a with statCount := a.statCount + 1 }
  if a.statCount % 100 ≠ 0 then a
  else
    let newDay := a.rotateDaily && a.lastYday.any (· != m.yday)
    let a := if a.rotateDaily then { a with lastYday := some m.yday } else a
    let tooBig :=
      decide (0 < a.maxSizeMb) && m.fileSize.any fun n => decide (a.maxSizeMb * 1024 * 1024 ≤ n)
    if newDay || tooBig then { a with file := none } else a

theorem rotate_spec :
    (a.rotate m).path = a.path ∧ (a.rotate m).secret = a.secret ∧
      (a.rotate m).hmacPrev = a.hmacPrev ∧
      ((a.rotate m).file = a.file ∨ (a.rotate m).file = none) := by
  unfold rotate
  dsimp only
  split_ifs <;> simp

/-- `audit_log_open`. -/
def openFile : AuditLog :=
  { a with file := a.file <|> if m.openOk then some a.path else none }

/-- The trace with quotes, newlines and tabs escaped, in 8192 bytes. -/
def escapeTrace : Bytes → Nat → Bytes
  | [], _ => []
  | b :: rest, j =>
    if 8189 ≤ j then []
    else if b = 34 then 92 :: 34 :: escapeTrace rest (j + 2)
    else if b = 10 then 92 :: 110 :: escapeTrace rest (j + 2)
    else if b = 9 then 92 :: 116 :: escapeTrace rest (j + 2)
    else b :: escapeTrace rest (j + 1)

/-- The entry without its end. -/
def payload : Bytes :=
  strlcpy 9216
    (lit "\x7b\"timestamp_ms\":" ++ decimal m.timestampMs.toNat ++ lit ",\"user_id\":" ++
      decimal userId ++
      lit ",\"decision\":\"" ++ lit (if allowed then "ALLOW" else "DENY") ++
        lit "\",\"duration_ms\":" ++
      decimal m.durationMs.toNat ++ lit ",\"cache_hit\":" ++
        lit (if cacheHit then "true" else "false") ++
      lit ",\"trace\":\"" ++ escapeTrace (cstr m.trace) 0 ++ lit "\"")

/-- `write_audit_entry_with_hmac`: with a secret, the entry is signed over the signature
before it. -/
def writeEntry (file payload : Bytes) : AuditLog × AuditLine :=
  if a.secret = [] then (a, { file := file, text := payload ++ lit "\x7d\n" })
  else
    let sig := hmac a.secret (a.hmacPrev ++ payload)
    ({ a with hmacPrev := sig },
      { file := file
        text := payload ++ lit ",\"signature\":\"" ++ sig.flatMap hexByte ++ lit "\"\x7d\n" })

/-- `audit_log_decision`; nothing is written when the file cannot be opened. -/
def logDecision : AuditLog × Option AuditLine :=
  let a := (a.rotate m).openFile m
  match a.file with
  | none => (a, none)
  | some file =>
    let (a, line) := a.writeEntry hmac file (payload m userId allowed cacheHit)
    (a, some line)

end AuditLog

/-! ## §2 A check with a foreign role strategy -/

/-- `perm_engine_evaluate_internal` where the role strategy asks another store. -/
def evaluateShared (V : Vendor) (h : Heap) (roleStore s : Store) (eng : Engine) (now : UInt64)
    (ctx : EvalContext) : Option (Bool × EvalContext × Engine) :=
  match eng.lookupL2 ctx.userId (hashParams ctx) now with
  | some allowed => some (allowed, ctx, eng)
  | none =>
    if eng.hitL1 ctx.userId now then
      decideOn V h roleStore eng now ctx
        (eng.readL1 ctx.userId (eng.resCache (ctx.userId % 128)).count)
    else
      let ps := policyResolveForUser s ctx.userId 64
      decideOn V h roleStore (if ps = [] then eng else eng.writeL1 ctx.userId now ps) now ctx ps

/-- Whether the decision comes from the result cache. -/
def cacheHit (eng : Engine) (now : UInt64) (ctx : EvalContext) : Bool :=
  (eng.lookupL2 ctx.userId (hashParams ctx) now).isSome

/-! ## §3 The process -/

/-- A context with its engine and its audit settings. -/
structure EngineContext where
  sys : System
  audit : AuditSettings

/-- What a check leaves: its result, and the line it wrote. -/
structure CheckOutcome where
  result : CheckResult
  line : Option AuditLine
  deriving DecidableEq, Repr

/-- The contexts by number, `userdata` of the role strategy (a context), the audit log, and
the checks made so far with their contexts, latest first. -/
structure Process where
  contexts : Nat → Option EngineContext
  rbacUserdata : Option Nat
  audit : AuditLog
  outcomes : List (Nat × CheckOutcome)

/-- A call on context `i`: setting it up, a management call, or a check. -/
inductive ProcessEvent where
  | init (i : Nat) (store : Store) (audit : AuditSettings) (yday : Nat)
  | manage (i : Nat) (m : Mutation)
  | check (i : Nat) (now : UInt64) (uid : Nat) (req : CheckRequest) (moment : AuditMoment)

def ProcessEvent.context : ProcessEvent → Nat
  | .init i _ _ _ => i
  | .manage i _ => i
  | .check i _ _ _ _ => i

namespace Process

/-- A process without contexts. -/
def start : Process where
  contexts := fun _ => none
  rbacUserdata := none
  audit := .initial
  outcomes := []

variable (V : Vendor) (h : Heap) (hmac : Bytes → Bytes → Bytes) (p : Process)

/-- The store the role strategy asks; where there is a context, one was set up last. -/
def roleStore (own : EngineContext) : Store :=
  match p.rbacUserdata.bind p.contexts with
  | some ctx => ctx.sys.store
  | none => own.sys.store

/-- A check on context `own`: the common body of `perm_check_*`, and its audit entry. -/
def check (own : EngineContext)
    (now : UInt64) (uid : Nat) (req : CheckRequest) (moment : AuditMoment) :
    Option (CheckOutcome × Engine × AuditLog) :=
  match own.sys.store.userGetById uid with
  | none =>
    some (⟨{ err := .notFound, allowed := false, fieldFilter := none }, none⟩, own.sys.engine,
      p.audit)
  | some user =>
    match evaluateShared V (req.heap h) (p.roleStore own) own.sys.store own.sys.engine now
        (req.context user) with
    | none => none
    | some (allowed, ctx, engine) =>
      ctx.destroy.map fun _ =>
        let (audit, line) := p.audit.logDecision hmac moment user.id allowed
          (cacheHit own.sys.engine now (req.context user))
        (⟨{ err := .ok, allowed, fieldFilter := req.returnedFilter ctx }, line⟩, engine, audit)

/-- One call; a call on a context that is not there, or setting up one that is, does nothing. -/
def step :
    ProcessEvent → Option Process
  | .init i store audit yday =>
    match p.contexts i with
    | some _ => some p
    | none =>
      some
        { p with
          contexts := Function.update p.contexts i
            (some { sys := { store := store, engine := permEngineCreate }, audit := audit })
          rbacUserdata := some i
          audit := p.audit.configure audit yday }
  | .manage i m =>
    match p.contexts i with
    | none => some p
    | some own =>
      some
        { p with
          contexts := Function.update p.contexts i (some { own with sys := (m.run own.sys).2 }) }
  | .check i now uid req moment =>
    match p.contexts i with
    | none => some p
    | some own =>
      (p.check V h hmac own now uid req moment).map fun r =>
        { p with
          contexts := Function.update p.contexts i (some { own with sys.engine := r.2.1 })
          audit := r.2.2
          outcomes := (i, r.1) :: p.outcomes }

/-- The checks made on context `i`. -/
def outcomesOf (i : Nat) : List CheckOutcome :=
  (p.outcomes.filter fun o => o.1 == i).map Prod.snd

/-- The path of the audit file of a context that is alone. -/
def ownPath (cfg : AuditSettings) : Bytes :=
  if cstr cfg.path = [] then lit "audit.log" else strlcpy 256 cfg.path

/-- The statics are as the context would have them alone: the role strategy gives the user
the roles the context's own store gives, audit path and secret are those of its settings,
no file is open or the one at this path, and with a secret no other context has written
an entry yet. -/
structure Own (p : Process) (i : Nat) (own : EngineContext) (uid : Nat) : Prop where
  roles : userHasRole (p.roleStore own) uid = userHasRole own.sys.store uid
  path : p.audit.path = ownPath own.audit
  secret : p.audit.secret = strlcpy 128 own.audit.secret
  file : p.audit.file = none ∨ p.audit.file = some (ownPath own.audit)
  chain : p.audit.secret ≠ [] → ∀ o ∈ p.outcomes, o.1 ≠ i → o.2.line = none

/-- A check finds the statics as its context would have them alone, and the audit file can
be opened. -/
def Undisturbed : ProcessEvent → Prop
  | .check i _ uid _ moment =>
    moment.openOk = true ∧ ∀ own, p.contexts i = some own → p.Own i own uid
  | _ => True

end Process

end SsoSystem
