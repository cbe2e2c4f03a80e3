/-
SsoSystem.Raft.Proxy — the replicated storage backend (src/raft_cluster.c).

A proxied operation proposes its document (`raft_cluster_propose_and_wait`):
the leader appends it to its log and the call returns SSO_OK there and then;
another node sends it on to the node it takes for the leader. Committed
entries reach every node through `raft_applylog_cb`, which hands them to the
inner backend and drops its result. `refresh_token_revoke_family` is the one
mutating operation without a proxy: the vtable is a copy of the inner one, so
the call goes to the inner backend of that node alone.

The library (third_party/raft) is not modelled but taken to be correct: `log`
is the log of the node elected last, its first `committed` entries are
committed, and an election keeps these (the rest of the new log is any). That
holds as long as the nodes remember what they voted for and what they have; the
callbacks that should store it store nothing, so a node that restarts has an
empty log, and with such a node in the cluster an election may lose anything.
A node applies the committed entries in order, and a node elected again still
has its log. A deposed leader that has not heard of it still takes entries,
into a log of its own that does not matter. A cluster has two nodes at least.

For a forwarded call `answered` tells, hop by hop, whether the answer of the
next node comes back before curl's timeout; a shorter list means that the
request is not delivered.
-/
import SsoSystem.Lib.Run
import SsoSystem.Raft.Codec

namespace SsoSystem.Raft

/-! ## §1 The inner backend -/

/-- A storage backend: the error code, the arguments as the call leaves them (an id is written
into the caller's struct) and the store. Some operations read the clock. -/
structure Backend (σ : Type) where
  call : (now : Int) → (c : Command) → σ → SsoError × Args c.op.params × σ
  refreshTokenRevokeFamily : (userId : UInt64) → (clientId : Option CString) → σ → SsoError × σ

/-- `raft_apply_dispatch`: its result with the arguments as the backend leaves them, and the
store. -/
def Backend.dispatch {σ : Type} (b : Backend σ) (now : Int) (store : σ) (doc : Json) :
    (SsoError × Option Command) × σ :=
  match raftApplyDispatch doc with
  | some c =>
      (((b.call now c store).1, some ⟨c.op, (b.call now c store).2.1⟩), (b.call now c store).2.2)
  | none => ((.invalidParam, none), store)

/-! ## §2 Nodes -/

variable {σ : Type}

structure Node (σ : Type) where
  running : Bool
  /-- It has not crashed since the run began. -/
  stayedUp : Bool
  /-- `raft_is_leader`, which may be out of date. -/
  leading : Bool
  /-- `raft_get_current_leader_node`. -/
  leader : Option Nat
  /-- What `raft_apply_dispatch` returned for each entry applied; `raft_applylog_cb` drops it. -/
  results : List (SsoError × Option Command)
  store : σ

/-- A call of a proxy that has returned, and the index its entry got in the log of the elected
leader. -/
structure ProxyCall where
  command : Command
  code : SsoError
  index : Option Nat

/-- The cluster, with the calls that have returned, latest first. -/
structure Replicas (σ : Type) where
  nodes : List (Node σ)
  /-- The node elected last. -/
  leader : Option Nat
  log : List Json
  committed : Nat
  returned : List ProxyCall

namespace Replicas

/-- `raft_cluster_init` on each of `others + 2` nodes, all with the same data. -/
def start (others : Nat) (init : σ) : Replicas σ where
  nodes := List.replicate (others + 2) ⟨true, true, false, none, [], init⟩
  leader := none
  log := []
  committed := 0
  returned := []

variable (s : Replicas σ)

/-- `raft_recv_entry` at a leader. -/
def append (n : Nat) (doc : Json) : Option Nat × Replicas σ :=
  if s.leader = some n then (some s.log.length, { s with log := s.log ++ [doc] }) else (none, s)

/-- `raft_cluster_propose_and_wait` at node `n`. -/
def propose (doc : Json) : List Bool → Nat → SsoError × Option Nat × Replicas σ
  | answered, n =>
    match s.nodes[n]? with
    | none => (.storage, none, s)
    | some node =>
      if node.running = false then (.storage, none, s)
      else if node.leading = true then (.ok, s.append n doc)
      else
        match node.leader, answered with
        | some l, true :: answered => propose doc answered l
        | some l, false :: answered => (.storage, (propose doc answered l).2)
        | _, _ => (.storage, none, s)

def setNode (n : Nat) (f : Node σ → Node σ) : Replicas σ := { s with nodes := s.nodes.modify n f }

/-- Some node in the cluster has lost its log. -/
def restarted : Bool := s.nodes.any fun node => node.running && !node.stayedUp

end Replicas

/-! ## §3 Runs -/

inductive ReplicaEvent where
  /-- A proxied operation is called at a node. -/
  | call (node : Nat) (command : Command) (answered : List Bool)
  /-- POST /api/v1/raft/execute at a node. -/
  | execute (node : Nat) (doc : Json) (answered : List Bool)
  | revokeFamily (node : Nat) (userId : UInt64) (clientId : Option CString)
  /-- A node becomes leader, with the first `keep` entries of the log and others. -/
  | elect (node : Nat) (keep : Nat) (others : List Json)
  /-- A node becomes or stays a follower of another. -/
  | follow (node : Nat) (leader : Option Nat)
  | commit (upTo : Nat)
  /-- A node applies the next committed entry at some time of its clock. -/
  | apply (node : Nat) (now : Int)
  | crash (node : Nat)
  | restart (node : Nat)

namespace Replicas

/-- The event happens at a node that is running. -/
def runningAt (s : Replicas σ) (n : Nat) : Bool := (s.nodes[n]?.map Node.running).getD false

def step (b : Backend σ) (s : Replicas σ) : ReplicaEvent → Option (Replicas σ)
  | .call n c answered =>
    if s.runningAt n = true then
      let r := s.propose (proxyDocument c) answered n
      some { r.2.2 with returned := ⟨c, r.1, r.2.1⟩ :: r.2.2.returned }
    else none
  | .execute n doc answered =>
    if s.runningAt n = true then some (s.propose doc answered n).2.2 else none
  | .revokeFamily n userId clientId =>
    if s.runningAt n = true then
      some (s.setNode n fun node =>
        { node with store := (b.refreshTokenRevokeFamily userId clientId node.store).2 })
    else none
  | .elect n keep others =>
    if s.runningAt n = true ∧
        ((if s.leader = some n then s.log.length else s.committed) ≤ keep ∨ s.restarted = true) then
      some { s.setNode n fun node => { node with leading := true, leader := some n } with
        leader := some n
        log := s.log.take keep ++ others
        committed := min s.committed (s.log.take keep ++ others).length }
    else none
  | .follow n leader =>
    if s.runningAt n = true then
      some (s.setNode n fun node => { node with leading := false, leader := leader })
    else none
  | .commit upTo =>
    if s.committed ≤ upTo ∧ upTo ≤ s.log.length then some { s with committed := upTo } else none
  | .apply n now =>
    match s.nodes[n]? with
    | none => none
    | some node =>
      if node.running = true ∧ node.results.length < s.committed then
        s.log[node.results.length]?.map fun doc => s.setNode n fun node =>
          { node with
            results := node.results ++ [(b.dispatch now node.store doc).1]
            store := (b.dispatch now node.store doc).2 }
      else none
  | .crash n =>
    if s.runningAt n = true then
      some (s.setNode n fun node =>
        { node with running := false, stayedUp := false, leading := false, leader := none })
    else none
  | .restart n =>
    if s.runningAt n = true then none
    else some (s.setNode n fun node =>
      { node with running := true, stayedUp := false, results := [] })

end Replicas

/-! ## §4 What a call is to mean -/

namespace Replicas

/-- A leader, or a node that takes itself for one, is reached in time: it is asked itself or at
the end of a chain of nodes which all get their answer. -/
def Taken (s : Replicas σ) : List Bool → Nat → Prop
  | [], n => ∃ node ∈ s.nodes[n]?, node.running = true ∧ node.leading = true
  | answered :: rest, n => ∃ node ∈ s.nodes[n]?, node.running = true ∧
      (node.leading = true ∨ answered = true ∧ ∃ l ∈ node.leader, s.Taken rest l)

/-- The operations that are accepted: a call that is taken, and every revocation of a family. -/
def Accepted (s : Replicas σ) : ReplicaEvent → Prop
  | .call n _ answered => s.Taken answered n
  | .revokeFamily .. => True
  | _ => False

end Replicas

end SsoSystem.Raft
