/-
SsoSystem.Permission.AdminAudit — `admin_audit_log` (src/permission.c).

An admin entry goes to the audit file of the context it is written for: the
shared open file if that context has the path the statics hold, a file opened
for this one line otherwise. It is signed in the same chain as the decisions.

The six loops that copy a text into the entry are one loop with two
parameters, the bytes it escapes and the position at which it stops; each
keeps its own pair here. The copy of an entry in the store is not part of
this module.
-/
import SsoSystem.Permission.Engines

namespace SsoSystem

open CMem Decimal

/-! ## §1 Copying a text into an entry -/

/-- Copies bytes while the position is below `limit`; a byte that `escape` knows becomes a
backslash and another byte. -/
def escapeLoop (escape : UInt8 → Option UInt8) (limit : Nat) : Bytes → Nat → Bytes
  | [], _ => []
  | b :: rest, j =>
    if limit ≤ j then []
    else
      match escape b with
      | some e => 92 :: e :: escapeLoop escape limit rest (j + 2)
      | none => b :: escapeLoop escape limit rest (j + 1)

/-- Quotes only: the address, the operation, the resource and the status. -/
def escapeQuote (b : UInt8) : Option UInt8 := if b = 34 then some 34 else none

/-- Quotes and backslashes: the username. -/
def escapeUsername (b : UInt8) : Option UInt8 :=
  if b = 34 then some 34 else if b = 92 then some 92 else none

/-- Quotes and newlines: the details. -/
def escapeDetails (b : UInt8) : Option UInt8 :=
  if b = 34 then some 34 else if b = 10 then some 110 else none

/-! ## §2 Entries -/

/-- The arguments of `admin_audit_log`; NULL is `none`. -/
structure AdminRecord where
  actorUserId : UInt64
  actorUsername : Option Bytes
  clientIp : Option Bytes
  operation : Option Bytes
  resource : Option Bytes
  resourceId : UInt64
  status : Option Bytes
  details : Option Bytes
  deriving DecidableEq, Repr

namespace AdminRecord

variable (r : AdminRecord)

def escUser : Bytes := escapeLoop escapeUsername 253 (cstr (r.actorUsername.getD [])) 0
def escIp : Bytes := escapeLoop escapeQuote 61 (cstr (r.clientIp.getD [])) 0
def escOp : Bytes := escapeLoop escapeQuote 61 (cstr (r.operation.getD [])) 0
def escRes : Bytes := escapeLoop escapeQuote 61 (cstr (r.resource.getD [])) 0
def escSt : Bytes := escapeLoop escapeQuote 13 (cstr (r.status.getD [])) 0
def escDet : Bytes := escapeLoop escapeDetails 1021 (cstr (r.details.getD [])) 0

/-- The entry without its end. -/
def payload (timestampMs : UInt64) : Bytes :=
  strlcpy 5120
    (lit "\x7b\"action\":\"admin\",\"timestamp_ms\":" ++ decimal timestampMs.toNat ++
      lit ",\"user_id\":" ++ decimal r.actorUserId.toNat ++ lit ",\"username\":\"" ++ r.escUser ++
      lit "\",\"ip_address\":\"" ++ r.escIp ++ lit "\",\"operation\":\"" ++ r.escOp ++
      lit "\",\"resource\":\"" ++ r.escRes ++ lit "\",\"resource_id\":" ++
      decimal r.resourceId.toNat ++ lit ",\"status\":\"" ++ r.escSt ++ lit "\",\"details\":\"" ++
      r.escDet ++ lit "\"")

end AdminRecord

/-- `admin_audit_log` for a context with this audit path. -/
def AuditLog.logAdmin (hmac : Bytes → Bytes → Bytes) (a : AuditLog) (m : AuditMoment)
    (cfgPath : Bytes) (r : AdminRecord) : AuditLog × Option AuditLine :=
  let logPath := if cstr cfgPath = [] then a.path else cstr cfgPath
  let a := a.rotate m
  let usePersistent := logPath == a.path
  let a := if usePersistent then a.openFile m else a
  let file := if usePersistent then a.file else if m.openOk then some logPath else none
  match file with
  | none => (a, none)
  | some file =>
    let (a, line) := a.writeEntry hmac file (r.payload m.timestampMs)
    (a, some line)

/-! ## §3 What is logged -/

/-- What is logged: a decision, or an admin operation for a context with this audit path. -/
inductive AuditRecord
  | decision (userId : UInt64) (allowed cacheHit : Bool)
  | admin (r : AdminRecord) (cfgPath : Bytes)

namespace AuditRecord

def log (hmac : Bytes → Bytes → Bytes) (a : AuditLog) (m : AuditMoment) :
    AuditRecord → AuditLog × Option AuditLine
  | .decision userId allowed cacheHit => a.logDecision hmac m userId.toNat allowed cacheHit
  | .admin r cfgPath => a.logAdmin hmac m cfgPath r

def payload (m : AuditMoment) : AuditRecord → Bytes
  | .decision userId allowed cacheHit => AuditLog.payload m userId.toNat allowed cacheHit
  | .admin r _ => r.payload m.timestampMs

variable {hmac : Bytes → Bytes → Bytes} {a a' : AuditLog} {m : AuditMoment} {r : AuditRecord}

/-- Both end in `write_audit_entry_with_hmac`, if there is a file; nothing before it touches
the chain. -/
theorem log_spec (hmac : Bytes → Bytes → Bytes) (a : AuditLog) (m : AuditMoment)
    (r : AuditRecord) : ∃ (a₀ : AuditLog) (file : Option Bytes),
      a₀.secret = a.secret ∧ a₀.hmacPrev = a.hmacPrev ∧
      r.log hmac a m = match file with
        | none => (a₀, none)
        | some file =>
          let (a₁, line) := a₀.writeEntry hmac file (r.payload m)
          (a₁, some line) := by
  obtain ⟨-, hsecret, hprev, -⟩ := a.rotate_spec m
  cases r with
  | decision userId allowed cacheHit =>
    exact ⟨(a.rotate m).openFile m, ((a.rotate m).openFile m).file, hsecret, hprev, rfl⟩
  | admin r cfgPath =>
    by_cases hpath : ((if cstr cfgPath = [] then a.path else cstr cfgPath) ==
        (a.rotate m).path) = true
    · refine ⟨(a.rotate m).openFile m, ((a.rotate m).openFile m).file, hsecret, hprev, ?_⟩
      simp only [log, AuditLog.logAdmin, hpath, if_true]
      rfl
    · refine ⟨a.rotate m, if m.openOk then some (if cstr cfgPath = [] then a.path else cstr cfgPath)
        else none, hsecret, hprev, ?_⟩
      simp only [log, AuditLog.logAdmin, hpath, Bool.false_eq_true, if_false]
      rfl

theorem writeEntry_of_log {line : AuditLine} (h : r.log hmac a m = (a', some line)) :
    ∃ (a₀ : AuditLog) (file : Bytes), a₀.secret = a.secret ∧ a₀.hmacPrev = a.hmacPrev ∧
      a₀.writeEntry hmac file (r.payload m) = (a', line) := by
  obtain ⟨a₀, file, hsecret, hprev, hlog⟩ := log_spec hmac a m r
  rw [h] at hlog
  cases file with
  | none => cases hlog
  | some file =>
    obtain ⟨rfl, heq⟩ := Prod.mk.inj hlog
    cases heq
    exact ⟨a₀, file, hsecret, hprev, rfl⟩

theorem keeps_of_log_none (h : r.log hmac a m = (a', none)) :
    a'.secret = a.secret ∧ a'.hmacPrev = a.hmacPrev := by
  obtain ⟨a₀, file, hsecret, hprev, hlog⟩ := log_spec hmac a m r
  rw [h] at hlog
  cases file with
  | none =>
    obtain ⟨rfl, -⟩ := Prod.mk.inj hlog
    exact ⟨hsecret, hprev⟩
  | some file => cases hlog

end AuditRecord

end SsoSystem
