/-
SsoSystem.Raft.Election — terms, votes and leaders of the cluster.

The part of third_party/raft/src/raft_server.c that elections run through,
with the glue of src/raft_cluster.c and src/raft_rpc.c around it: the terms in
a message go through JSON and come out as `yyjson_get_int` reads them
(`wire`), and a node that restarts starts from `raft_new`, since
`raft_persist_term_cb`, `raft_persist_vote_cb` and the log callbacks return
without storing anything. Nodes are numbered from 0 and are all voting.

Requests and responses stay in a pool, so they may be handled late, again or
never. What the library does to logs is not modelled but taken as promised:
a log that has the committed entries keeps them, and entries are committed
when a majority of the logs has them.

Terms are whole numbers: a `long` that is counted up once per election does
not overflow. `grants`, `led` and `highest` record what has happened.
-/
import Mathlib.Data.Finset.Card
import Mathlib.Order.Interval.Finset.Nat
import SsoSystem.Raft.Codec

namespace SsoSystem.Raft

/-! ## §1 One server -/

inductive ServerState where
  | follower | candidate | leader
  deriving DecidableEq

structure LogEntry where
  term : Int
  id : Int
  deriving DecidableEq

/-- `raft_server_private_t`, as far as elections read it. -/
structure Server where
  currentTerm : Int
  /-- -1 is `none`. -/
  votedFor : Option Nat
  state : ServerState
  currentLeader : Option Nat
  /-- The nodes with `raft_node_has_vote_for_me`. -/
  votes : Finset Nat
  log : List LogEntry

/-- `raft_new`. -/
def Server.raftNew : Server := ⟨0, none, .follower, none, ∅, []⟩

/-- A number after `yyjson_mut_obj_add_int` and `yyjson_get_int`. -/
def wire (n : Int) : Int := getInt (some (addInt n))

/-- A RequestVote message; a node id is an `int` and comes through as it is. -/
structure VoteRequest where
  term : Int
  candidate : Nat
  lastLogIdx : Int
  lastLogTerm : Int

/-- The message as `handle_raft_request_vote` reads it. -/
def VoteRequest.received (m : VoteRequest) : VoteRequest :=
  ⟨wire m.term, m.candidate, wire m.lastLogIdx, wire m.lastLogTerm⟩

structure VoteResponse where
  voter : Nat
  candidate : Nat
  term : Int
  granted : Bool

namespace Server

variable (srv : Server) (count me voter : Nat) (term : Int) (granted : Bool)

/-- `raft_set_current_term`. -/
def setCurrentTerm : Server :=
  if srv.currentTerm < term then { srv with currentTerm := term, votedFor := none } else srv

/-- `raft_become_follower` after the term was raised, with the leader forgotten. -/
def stepDown : Server :=
  { srv.setCurrentTerm term with state := .follower, currentLeader := none }

/-- `__should_grant_vote`; the last entry's term is put into an `int`. -/
def shouldGrantVote (m : VoteRequest) : Bool :=
  if m.term < srv.currentTerm then false
  else if srv.votedFor.isSome then false
  else
    match srv.log.getLast? with
    | none => true
    | some ety =>
      decide (ety.term.bmod (2 ^ 32) < m.lastLogTerm) ||
        (decide (m.lastLogTerm = ety.term.bmod (2 ^ 32)) &&
          decide ((srv.log.length : Int) ≤ m.lastLogIdx))

/-- `raft_recv_requestvote`, and whether the vote is granted; `recent` is
`timeout_elapsed < election_timeout`. -/
def recvRequestVote (m : VoteRequest) (recent : Bool) : Server × Bool :=
  if srv.currentLeader.isSome = true ∧ srv.currentLeader ≠ some m.candidate ∧ recent = true then
    (srv, false)
  else
    let srv := if srv.currentTerm < m.term then srv.stepDown m.term else srv
    if srv.shouldGrantVote m then
      ({ srv with votedFor := some m.candidate, currentLeader := none }, true)
    else (srv, false)

/-- `raft_become_candidate` of node `me`. -/
def becomeCandidate (me : Nat) : Server :=
  { srv.setCurrentTerm (srv.currentTerm + 1) with
    votedFor := some me, votes := ∅, currentLeader := none, state := .candidate }

/-- The request `raft_become_candidate` sends to the others. -/
def voteRequest (me : Nat) : VoteRequest :=
  ⟨srv.currentTerm, me, srv.log.length, (srv.log.getLast?.map LogEntry.term).getD 0⟩

/-- `raft_get_nvotes_for_me`. -/
def nvotesForMe (count me : Nat) : Nat :=
  ((Finset.range count).filter fun p => p ≠ me ∧ p ∈ srv.votes).card +
    if srv.votedFor = some me then 1 else 0

/-- `raft_votes_is_majority`. -/
def hasMajority (count me : Nat) : Bool :=
  decide (srv.nvotesForMe count me ≤ count ∧ count / 2 + 1 ≤ srv.nvotesForMe count me)

/-- `raft_recv_requestvote_response` from `voter`. -/
def recvVoteResponse : Server :=
  if srv.state ≠ .candidate then srv
  else if srv.currentTerm < term then srv.stepDown term
  else if srv.currentTerm ≠ term then srv
  else if granted = true then
    let srv := { srv with votes := insert voter srv.votes }
    if srv.hasMajority count me then { srv with state := .leader } else srv
  else srv

/-- `raft_recv_appendentries`, apart from the log. -/
def recvAppendEntries (sender : Option Nat) : Server :=
  if srv.state = .candidate ∧ srv.currentTerm = term then
    { srv with state := .follower, currentLeader := sender }
  else if srv.currentTerm < term then
    { srv.setCurrentTerm term with state := .follower, currentLeader := sender }
  else if term < srv.currentTerm then srv
  else { srv with currentLeader := sender }

/-- `raft_recv_appendentries_response`, apart from the log. -/
def recvAppendResponse : Server :=
  if srv.state = .leader ∧ srv.currentTerm < term then srv.stepDown term else srv

end Server

/-! ## §2 The cluster -/

structure Cluster where
  count : Nat
  server : Nat → Server
  requests : List VoteRequest
  responses : List VoteResponse
  committed : List LogEntry
  /-- The highest term a node has had. -/
  highest : Nat → Int
  /-- Voter, term and candidate of every vote. -/
  grants : List (Nat × Int × Nat)
  /-- Node and term of every leadership. -/
  led : List (Nat × Int)

inductive ElectionEvent where
  /-- The election timeout of a node runs out in `raft_periodic`. -/
  | timeout (node : Nat)
  /-- `raft_periodic` where there is one voting node. -/
  | alone (node : Nat)
  /-- A node handles the request with this index. -/
  | requestVote (node request : Nat) (recent : Bool)
  /-- A candidate gets the response with this index. -/
  | voteResponse (response : Nat)
  | appendEntries (node : Nat) (term : Int) (sender : Option Nat)
  | appendResponse (node : Nat) (term : Int)
  /-- The log of a node changes: entries of a leader, or its own. -/
  | setLog (node : Nat) (log : List LogEntry)
  | commit (entries : List LogEntry)
  /-- A node crashes and is started again. -/
  | restart (node : Nat)

namespace Cluster

/-- `raft_cluster_init` on every node. -/
def start (count : Nat) : Cluster where
  count := count
  server := fun _ => .raftNew
  requests := []
  responses := []
  committed := []
  highest := fun _ => 0
  grants := []
  led := []

variable (s : Cluster)

/-- The nodes whose log has these entries. -/
def holders (entries : List LogEntry) : Finset Nat :=
  (Finset.range s.count).filter fun n => entries <+: (s.server n).log

/-- A node is in another state; a vote it gives and a leadership it takes up are recorded. -/
def put (n : Nat) (srv : Server) (vote : Option Nat) : Cluster where
  count := s.count
  server := Function.update s.server n srv
  requests := s.requests
  responses := s.responses
  committed := s.committed
  highest := Function.update s.highest n (max (s.highest n) srv.currentTerm)
  grants := s.grants ++ (vote.map fun c => (n, srv.currentTerm, c)).toList
  led := if (s.server n).state ≠ .leader ∧ srv.state = .leader then
      s.led ++ [(n, srv.currentTerm)]
    else s.led

def step : ElectionEvent → Option Cluster
  | .timeout n =>
    if n < s.count ∧ 1 < s.count ∧ (s.server n).state ≠ .leader then
      let srv := (s.server n).becomeCandidate n
      some { s.put n srv (some n) with requests := s.requests ++ [srv.voteRequest n] }
    else none
  | .alone n =>
    if n < s.count ∧ s.count = 1 then
      some (s.put n { s.server n with state := .leader } none)
    else none
  | .requestVote n i recent =>
    match s.requests[i]? with
    | none => none
    | some m =>
      if n < s.count ∧ n ≠ m.candidate then
        let r := (s.server n).recvRequestVote m.received recent
        some { s.put n r.1 (if r.2 = true then some m.candidate else none) with
          responses := s.responses ++ [⟨n, m.candidate, r.1.currentTerm, r.2⟩] }
      else none
  | .voteResponse i =>
    match s.responses[i]? with
    | none => none
    | some r => some (s.put r.candidate
        ((s.server r.candidate).recvVoteResponse s.count r.candidate r.voter
          (wire r.term) r.granted)
        none)
  | .appendEntries n term sender =>
    if n < s.count then some (s.put n ((s.server n).recvAppendEntries term sender) none) else none
  | .appendResponse n term =>
    if n < s.count then some (s.put n ((s.server n).recvAppendResponse term) none) else none
  | .setLog n log =>
    if n < s.count ∧ (s.committed <+: (s.server n).log → s.committed <+: log) then
      some { s with server := Function.update s.server n { s.server n with log := log } }
    else none
  | .commit entries =>
    if s.committed <+: entries ∧ s.count < 2 * (s.holders entries).card then
      some { s with committed := entries }
    else none
  | .restart n =>
    if n < s.count then some (s.put n .raftNew none) else none

/-- One vote per node and term, terms that never go back, one leader per term, and
the committed entries on a majority of the nodes. -/
structure VoteSafe : Prop where
  votes : ∀ v t c c', (v, t, c) ∈ s.grants → (v, t, c') ∈ s.grants → c = c'
  terms : ∀ n, s.highest n ≤ (s.server n).currentTerm
  leaders : ∀ n n' t, (n, t) ∈ s.led → (n', t) ∈ s.led → n = n'
  held : s.committed ≠ [] → s.count < 2 * (s.holders s.committed).card

/-- A node crashes only while it has nothing that should have been stored. -/
def Unstained : ElectionEvent → Prop
  | .restart n => (s.server n).currentTerm = 0 ∧ (s.server n).votedFor = none ∧
      (s.server n).log = []
  | _ => True

instance (e : ElectionEvent) : Decidable (s.Unstained e) := by
  cases e <;> dsimp only [Unstained] <;> infer_instance

end Cluster

end SsoSystem.Raft
