/-
SsoSystem.Token.Rotation — the states a token manager can reach, and runs of
issuing and rotating.

A manager is set up once (`token_manager_init`, then perhaps the standby
slot) and from then on rotates its keys; nonces, revocations and sessions do
not touch the keys. `KeyRun` adds to a manager the tokens it has issued, each with the
number of rotations since.
-/
import SsoSystem.Lib.Run
import SsoSystem.Token.Manager

namespace SsoSystem

open CMem

/-! ## §1 Reachable managers -/

/-- A manager as it is set up. -/
inductive TokenManager.Started : TokenManager → Prop where
  | init {secret : Bytes} {ttl : Int64} {m : TokenManager}
      (h : tokenManagerInit secret ttl = .ok m) : Started m
  | standby {secret secret2 : Bytes} {ttl : Int64} {m m' : TokenManager}
      (h : tokenManagerInit secret ttl = .ok m) (h2 : m.initStandby secret2 = .ok m') : Started m'

/-- A manager in use. -/
inductive TokenManager.Reachable : TokenManager → Prop where
  | start {m : TokenManager} (h : m.Started) : Reachable m
  | rotate {m m' : TokenManager} {secret : Bytes} (hm : Reachable m)
      (h : m.rotateKey secret = .ok m') : Reachable m'
  | setNonce {m : TokenManager} (uid nonce : UInt64) (hm : Reachable m) :
      Reachable (m.setNonce uid nonce)
  | revoke {m : TokenManager} (jti : Bytes) (hm : Reachable m) : Reachable (m.revoke jti)
  | registerSession {m : TokenManager} (uid : UInt64) (jti : Bytes) (hm : Reachable m) :
      Reachable (m.registerSession uid jti).1

/-- What every manager in use keeps: the signing slot is filled, its kid is the
counter's or the one before, and the other slot, if filled, has another kid. -/
structure TokenManager.KeysOk (m : TokenManager) (k : UInt32) : Prop where
  mode : m.mode = .hs256
  populated : m.active.populated = true
  kid : m.active.kid = kidOf k
  recent : k = m.rotationCounter ∨ k = m.rotationCounter - 1
  other : (m.slots (1 - m.activeSlot)).populated = true →
    ∃ j, (m.slots (1 - m.activeSlot)).kid = kidOf j ∧ j ≠ k

/-! ## §2 Runs -/

/-- A call on the manager. -/
inductive KeyEvent where
  | issue (args : IssueArgs) (env : IssueEnv)
  | rotate (secret : Bytes)

/-- An issued token: the manager, arguments and environment it was issued with, and
the successful rotations since. -/
structure Issued where
  tok : Token
  mgr : TokenManager
  args : IssueArgs
  env : IssueEnv
  rotations : Nat

/-- A manager, how often it has rotated, and the tokens it has issued. -/
structure KeyRun where
  mgr : TokenManager
  rotated : Nat
  issued : List Issued

/-- One call. A call that fails changes nothing. -/
def KeyRun.step (c : Crypto) (s : KeyRun) : KeyEvent → Option KeyRun
  | .issue args env =>
    match tokenIssue c s.mgr args env with
    | .ok tok => some { s with issued := ⟨tok, s.mgr, args, env, 0⟩ :: s.issued }
    | .error _ => some s
  | .rotate secret =>
    match s.mgr.rotateKey secret with
    | .ok mgr =>
      some
        { mgr := mgr
          rotated := s.rotated + 1
          issued := s.issued.map fun i => { i with rotations := i.rotations + 1 } }
    | .error _ => some s

variable (m : TokenManager) (s : KeyRun) (e : KeyEvent)

/-- The run of a manager that has just been set up. -/
def KeyRun.start : KeyRun where
  mgr := m
  rotated := 0
  issued := []

/-- The calls under which the guarantee holds for a manager that was set up as `m`:
no quote in a thumbprint, and no kid that was used before. The standby slot
takes a kid too, so that the kids last for one rotation less with it. -/
def KeyRun.Ok : KeyEvent → Prop
  | .issue args _ => (34 : UInt8) ∉ args.jktText
  | .rotate _ => s.rotated + m.rotationCounter.toNat < 2 ^ 32

instance : Decidable (KeyRun.Ok m s e) := by
  cases e <;> dsimp only [KeyRun.Ok] <;> infer_instance

/-- The rotation guarantee in one state: the signing slot is filled, the kids of
filled slots differ, and an issued token, while it has not expired, is accepted
up to one rotation later and rejected from two rotations on. -/
structure KeyRun.Safe (c : Crypto) (s : KeyRun) : Prop where
  populated : s.mgr.active.populated = true
  kids : ∀ i j, (s.mgr.slots i).populated = true → (s.mgr.slots j).populated = true →
    (s.mgr.slots i).kid = (s.mgr.slots j).kid → i = j
  accepted : ∀ e ∈ s.issued, e.rotations ≤ 1 →
    (∀ h p sig, splitToken e.tok.tokenStr = some (h, p, sig) → isHexStr sig = false) →
    ∀ now, now ≤ e.tok.expiresAt → ∃ out, tokenVerify c s.mgr now e.tok.tokenStr = some (.ok out)
  rejected : ∀ e ∈ s.issued, 2 ≤ e.rotations →
    ∀ now, ∃ err, tokenVerify c s.mgr now e.tok.tokenStr = some (.error err)

end SsoSystem
