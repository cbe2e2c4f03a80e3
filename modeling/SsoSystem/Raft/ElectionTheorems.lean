/-
SsoSystem.Raft.ElectionTheorems — vote safety as long as nothing is lost.

Everything a node does to its term and vote is a `Move`: the term does not
fall, a vote stays within its term, and a new one is given only where there
was none (`Inv.move`). Leaders have a quorum of votes in the record
(`Elected`), and two quorums share a voter.
-/
import SsoSystem.Lib.Run
import SsoSystem.Raft.CodecTheorems
import SsoSystem.Raft.Election

namespace SsoSystem.Raft

open Run List Option Function

/-- A term is sent as a C `int`. -/
theorem wire_eq (n : Int) : wire n = n.bmod (2 ^ 32) := getInt_addInt n

theorem wire_wire (n : Int) : wire (wire n) = wire n := by
  rw [wire_eq, wire_eq, Int.bmod_bmod]

/-! ## §1 Moves of a server -/

/-- What may happen to the term and the vote of a server; `vote` is a vote it gives. -/
structure Move (srv srv' : Server) (vote : Option Nat) : Prop where
  term_le : srv.currentTerm ≤ srv'.currentTerm
  kept : srv'.currentTerm = srv.currentTerm → ∀ c, srv.votedFor = some c → srv'.votedFor = some c
  voted : ∀ c, srv'.votedFor = some c →
    vote = some c ∨ srv'.currentTerm = srv.currentTerm ∧ srv.votedFor = some c
  given : ∀ c, vote = some c → srv'.votedFor = some c ∧
    (srv'.currentTerm = srv.currentTerm → srv.votedFor = none)
  log_eq : srv'.log = srv.log

namespace Server

variable (srv : Server) {srv' : Server}

/-- A change of anything but term, vote and log is a move. -/
theorem move_same (hterm : srv'.currentTerm = srv.currentTerm)
    (hvote : srv'.votedFor = srv.votedFor) (hlog : srv'.log = srv.log) : Move srv srv' none where
  term_le := by omega
  kept := fun _ c hc => hvote.trans hc
  voted := fun c hc => Or.inr ⟨hterm, hvote.symm.trans hc⟩
  given := fun c hc => by cases hc
  log_eq := hlog

variable (count me voter : Nat) (term : Int) (granted : Bool)

/-- A new term forgets the vote. -/
theorem move_setCurrentTerm
    (hterm : srv'.currentTerm = (srv.setCurrentTerm term).currentTerm)
    (hvote : srv'.votedFor = (srv.setCurrentTerm term).votedFor)
    (hlog : srv'.log = srv.log) : Move srv srv' none := by
  rw [setCurrentTerm] at hterm hvote
  split at hterm
  · next hlt =>
    rw [if_pos hlt] at hvote
    have hterm : srv'.currentTerm = term := hterm
    refine ⟨by omega, fun heq => by omega, fun c hc => ?_, fun c hc => ?_, hlog⟩
    · rw [hvote] at hc
      cases hc
    · cases hc
  · next hlt =>
    rw [if_neg hlt] at hvote
    exact srv.move_same hterm hvote hlog

theorem log_setCurrentTerm : (srv.setCurrentTerm term).log = srv.log := by
  rw [setCurrentTerm]
  split <;> rfl

/-- Stepping down gives no vote. -/
theorem move_stepDown : Move srv (srv.stepDown term) none :=
  srv.move_setCurrentTerm term rfl rfl (srv.log_setCurrentTerm term)

/-- Counting votes gives none. -/
theorem move_recvVoteResponse :
    Move srv (srv.recvVoteResponse count me voter term granted) none := by
  have hsame : Move srv srv none := srv.move_same rfl rfl rfl
  rw [recvVoteResponse]
  split
  · exact hsame
  · split
    · exact srv.move_stepDown term
    · split
      · exact hsame
      · split
        · dsimp only
          split <;> exact srv.move_same rfl rfl rfl
        · exact hsame

theorem move_recvAppendEntries (sender : Option Nat) :
    Move srv (srv.recvAppendEntries term sender) none := by
  rw [recvAppendEntries]
  split
  · exact srv.move_same rfl rfl rfl
  · split
    · exact srv.move_setCurrentTerm term rfl rfl (srv.log_setCurrentTerm term)
    · split <;> exact srv.move_same rfl rfl rfl

theorem move_recvAppendResponse : Move srv (srv.recvAppendResponse term) none := by
  rw [recvAppendResponse]
  split
  · exact srv.move_stepDown term
  · exact srv.move_same rfl rfl rfl

/-- A candidate votes for itself, in a new term. -/
theorem move_becomeCandidate (me : Nat) : Move srv (srv.becomeCandidate me) (some me) := by
  have hlt : srv.currentTerm < srv.currentTerm + 1 := by omega
  have hterm : (srv.becomeCandidate me).currentTerm = srv.currentTerm + 1 := by
    rw [becomeCandidate, setCurrentTerm, if_pos hlt]
  refine ⟨by omega,
    fun heq => by omega, fun c hc => Or.inl hc, fun c hc => ⟨hc, fun heq => by omega⟩,
    ?_⟩
  exact srv.log_setCurrentTerm _

/-- A vote is given to the candidate that asked, in the term it asked for. -/
theorem move_recvRequestVote (m : VoteRequest) (recent : Bool) :
    Move srv (srv.recvRequestVote m recent).1
        (if (srv.recvRequestVote m recent).2 = true then some m.candidate else none) ∧
      ((srv.recvRequestVote m recent).2 = true →
        (srv.recvRequestVote m recent).1.currentTerm = m.term) := by
  -- the server once the term of the request has been taken over
  have hraise : ∀ srv₁ : Server,
    srv₁ = (if srv.currentTerm < m.term then srv.stepDown m.term else srv) →
      Move srv srv₁ none ∧ m.term ≤ srv₁.currentTerm := by
    rintro srv₁ rfl
    split
    · next hlt =>
      refine ⟨srv.move_stepDown m.term, ?_⟩
      rw [stepDown, setCurrentTerm, if_pos hlt]
    · next hlt => exact ⟨srv.move_same rfl rfl rfl, by omega⟩
  rw [recvRequestVote]
  split
  · exact ⟨srv.move_same rfl rfl rfl, fun h => by cases h⟩
  · dsimp only
    obtain ⟨hmove, hge⟩ := hraise _ rfl
    generalize (if srv.currentTerm < m.term then srv.stepDown m.term else srv) = srv₁ at hmove hge ⊢
    split
    · next hgrant =>
      rw [shouldGrantVote] at hgrant
      split at hgrant
      · cases hgrant
      · next hterm =>
        split at hgrant
        · cases hgrant
        · next hnone =>
          have hnone : srv₁.votedFor = none := by simpa using hnone
          refine ⟨⟨hmove.term_le, fun heq c hc => ?_, fun c hc => Or.inl hc, fun c hc =>
            ⟨hc, fun heq => ?_⟩,
            hmove.log_eq⟩, fun _ => ?_⟩
          · have := hmove.kept heq c hc
            rw [hnone] at this
            cases this
          · cases hv : srv.votedFor with
            | none => rfl
            | some c' =>
              have := hmove.kept heq c' hv
              rw [hnone] at this
              cases this
          · show srv₁.currentTerm = m.term
            omega
    · exact ⟨hmove, fun h => by cases h⟩

/-- Nobody becomes candidate or leader, and a candidate keeps its count. -/
structure Passive (srv srv' : Server) : Prop where
  candidate : srv'.state = .candidate → srv.state = .candidate ∧ srv'.votes = srv.votes ∧
    srv'.currentTerm = srv.currentTerm
  leader : srv'.state = .leader → srv.state = .leader

theorem passive_refl : Passive srv srv := ⟨fun h => ⟨h, rfl, rfl⟩, id⟩

/-- Whoever is a follower afterwards has become nothing else. -/
theorem passive_of_follower (h : srv'.state = .follower) : Passive srv srv' := by
  constructor <;> intro h' <;> rw [h] at h' <;> cases h'

/-- Being asked for a vote makes nobody a leader. -/
theorem passive_recvRequestVote (m : VoteRequest) (recent : Bool) :
    Passive srv (srv.recvRequestVote m recent).1 := by
  have hraise : Passive srv (if srv.currentTerm < m.term then srv.stepDown m.term else srv) := by
    split
    · exact srv.passive_of_follower rfl
    · exact srv.passive_refl
  rw [recvRequestVote]
  split
  · exact srv.passive_refl
  · dsimp only
    generalize (if srv.currentTerm < m.term then srv.stepDown m.term else srv) = srv₁ at hraise ⊢
    split
    · exact ⟨hraise.candidate, hraise.leader⟩
    · exact hraise

theorem passive_recvAppendEntries (sender : Option Nat) :
    Passive srv (srv.recvAppendEntries term sender) := by
  rw [recvAppendEntries]
  split
  · exact srv.passive_of_follower rfl
  · split
    · exact srv.passive_of_follower rfl
    · split
      · exact srv.passive_refl
      · exact ⟨fun h => ⟨h, rfl, rfl⟩, id⟩

theorem passive_recvAppendResponse : Passive srv (srv.recvAppendResponse term) := by
  rw [recvAppendResponse]
  split
  · exact srv.passive_of_follower rfl
  · exact srv.passive_refl

/-- A response changes the count of a candidate only by its vote for the present term,
and makes a leader only of a candidate with a majority. -/
theorem recvVoteResponse_cases :
    Passive srv (srv.recvVoteResponse count me voter term granted) ∨
      srv.state = .candidate ∧ srv.currentTerm = term ∧ granted = true ∧
        (srv.recvVoteResponse count me voter term granted =
          { srv with votes := insert voter srv.votes } ∨
          { srv with votes := insert voter srv.votes }.hasMajority count me = true ∧
            srv.recvVoteResponse count me voter term granted =
              { srv with votes := insert voter srv.votes, state := .leader }) := by
  rw [recvVoteResponse]
  split
  · exact Or.inl srv.passive_refl
  · next hstate =>
    split
    · exact Or.inl (srv.passive_of_follower rfl)
    · split
      · exact Or.inl srv.passive_refl
      · next hterm =>
        split
        · next hgranted =>
          refine Or.inr ⟨not_not.mp hstate, not_not.mp hterm, hgranted, ?_⟩
          dsimp only
          split
          · next hmajority => exact Or.inr ⟨hmajority, rfl⟩
          · exact Or.inl rfl
        · exact Or.inl srv.passive_refl

end Server

namespace Cluster

variable {s s' : Cluster}

/-! ## §2 The invariant -/

/-- A majority of the nodes has voted for the node in the term. -/
def Elected (count : Nat) (grants : List (Nat × Int × Nat)) (n : Nat) (t : Int) : Prop :=
  ∃ quorum ⊆ Finset.range count, count < 2 * quorum.card ∧ ∀ v ∈ quorum, (v, t, n) ∈ grants

variable {count n : Nat} {grants : List (Nat × Int × Nat)} {srv : Server} {vote : Option Nat}
  {t : Int}

/-- A majority stays one when votes are added. -/
theorem Elected.mono {grants' : List (Nat × Int × Nat)} (h : Elected count grants n t)
    (hsub : grants ⊆ grants') : Elected count grants' n t := by
  obtain ⟨quorum, hrange, hcard, hvotes⟩ := h
  exact ⟨quorum, hrange, hcard, fun v hv => hsub (hvotes v hv)⟩

/-- Two quorums share a voter, so one vote per term gives one winner per term. -/
theorem Elected.unique {n' : Nat}
    (hvotes : ∀ v t c c', (v, t, c) ∈ grants → (v, t, c') ∈ grants → c = c')
    (h : Elected count grants n t) (h' : Elected count grants n' t) : n = n' := by
  obtain ⟨quorum, hrange, hcard, hfor⟩ := h
  obtain ⟨quorum', hrange', hcard', hfor'⟩ := h'
  have hmeet : (quorum ∩ quorum').Nonempty := by
    refine Finset.inter_nonempty_of_card_lt_card_add_card hrange hrange' ?_
    rw [Finset.card_range]
    omega
  obtain ⟨v, hv⟩ := hmeet
  obtain ⟨hv, hv'⟩ := Finset.mem_inter.mp hv
  exact hvotes v t n n' (hfor v hv) (hfor' v hv')

structure Inv (s : Cluster) : Prop where
  /-- A recorded vote is backed by the voter's state. -/
  granted : ∀ v t c, (v, t, c) ∈ s.grants → t ≤ (s.server v).currentTerm ∧
    ((s.server v).currentTerm = t → (s.server v).votedFor = some c)
  voted : ∀ v c, (s.server v).votedFor = some c → (v, (s.server v).currentTerm, c) ∈ s.grants
  unique : ∀ v t c c', (v, t, c) ∈ s.grants → (v, t, c') ∈ s.grants → c = c'
  terms : ∀ n, s.highest n ≤ (s.server n).currentTerm
  asked : ∀ m ∈ s.requests, m.candidate < s.count
  answered : ∀ r ∈ s.responses, r.candidate < s.count
  responses : ∀ r ∈ s.responses, r.granted = true →
    (r.voter, r.term, r.candidate) ∈ s.grants ∧ wire r.term = r.term
  counted : ∀ n, (s.server n).state = .candidate → ∀ v ∈ (s.server n).votes,
    (v, (s.server n).currentTerm, n) ∈ s.grants
  led : ∀ n t, (n, t) ∈ s.led → n < s.count ∧ (s.count = 1 ∨ Elected s.count s.grants n t)
  held : s.committed ≠ [] → s.count < 2 * (s.holders s.committed).card

/-- The invariant at the start: nobody has voted. -/
theorem inv_start (count : Nat) : Inv (start count) where
  granted := fun _ _ _ h => absurd h not_mem_nil
  voted := fun _ _ h => by cases h
  unique := fun _ _ _ _ h => absurd h not_mem_nil
  terms := fun _ => Int.le_refl 0
  asked := nofun
  answered := nofun
  responses := nofun
  counted := fun _ h => by cases h
  led := fun _ _ h => absurd h not_mem_nil
  held := fun h => absurd rfl h

/-- The invariant says what is wanted of votes and leaders. -/
theorem Inv.voteSafe (h : Inv s) : s.VoteSafe where
  votes := h.unique
  __ := h
  leaders := by
    intro n n' t hn hn'
    obtain ⟨hlt, hn⟩ := h.led n t hn
    obtain ⟨hlt', hn'⟩ := h.led n' t hn'
    rcases hn with hone | hn
    · omega
    · rcases hn' with hone | hn'
      · omega
      · exact hn.unique h.unique hn'

/-! ## §3 A move keeps the invariant -/

/-- A move adds at most the vote it gives. -/
theorem mem_grants_put {g : Nat × Int × Nat} (h : g ∈ (s.put n srv vote).grants) :
    g ∈ s.grants ∨ ∃ c, vote = some c ∧ g = (n, srv.currentTerm, c) := by
  rcases mem_append.mp h with h | h
  · exact Or.inl h
  · rw [mem_toList] at h
    obtain ⟨c, hc, rfl⟩ := map_eq_some_iff.mp h
    exact Or.inr ⟨c, hc, rfl⟩

theorem grants_subset_put (n : Nat) (srv : Server) (vote : Option Nat) :
    s.grants ⊆ (s.put n srv vote).grants :=
  subset_append_left _ _

theorem new_mem_put (n : Nat) (srv : Server) (c : Nat) :
    (n, srv.currentTerm, c) ∈ (s.put n srv (some c)).grants :=
  mem_append_right _ (by simp)

/-- A move that keeps the log keeps who holds the committed entries. -/
theorem holders_put (hlog : srv.log = (s.server n).log) (entries : List LogEntry) :
    (s.put n srv vote).holders entries = s.holders entries := by
  refine Finset.filter_congr fun v _ => ?_
  by_cases hv : v = n
  · subst hv
    show entries <+: (update s.server v srv v).log ↔ _
    rw [update_self, hlog]
  · show entries <+: (update s.server n srv v).log ↔ _
    rw [update_of_ne hv]

theorem server_put : (s.put n srv vote).server = update s.server n srv := rfl

/-- Every leadership the move begins has to be won; all else follows from `Move`. -/
theorem Inv.move (h : Inv s) (hmove : Move (s.server n) srv vote)
    (hcounted : srv.state = .candidate → ∀ v ∈ srv.votes, (v, srv.currentTerm, n) ∈
    (s.put n srv vote).grants)
    (hled : (s.server n).state ≠ .leader → srv.state = .leader → n < s.count ∧
    (s.count = 1 ∨ Elected s.count s.grants n srv.currentTerm)) :
    Inv (s.put n srv vote) where
  granted := by
    intro v t c hg
    rw [server_put]
    rcases mem_grants_put hg with hg | ⟨c', hc', hg⟩
    · obtain ⟨hle, hvote⟩ := h.granted v t c hg
      by_cases hv : v = n
      · subst hv
        rw [update_self]
        have hterm := hmove.term_le
        refine ⟨by omega, fun heq => hmove.kept (by omega) c (hvote (by omega))⟩
      · rw [update_of_ne hv]
        exact ⟨hle, hvote⟩
    · cases hg
      rw [update_self]
      exact ⟨Int.le_refl _, fun _ => (hmove.given c hc').1⟩
  voted := by
    intro v c hc
    rw [server_put] at hc ⊢
    by_cases hv : v = n
    · subst hv
      rw [update_self] at hc ⊢
      rcases hmove.voted c hc with rfl | ⟨hterm, hold⟩
      · exact new_mem_put v srv c
      · rw [hterm]
        exact grants_subset_put _ _ _ (h.voted v c hold)
    · rw [update_of_ne hv] at hc ⊢
      exact grants_subset_put _ _ _ (h.voted v c hc)
  unique := by
    -- a new vote is the first in its term
    have hfirst : ∀ c c', vote = some c → (n, srv.currentTerm, c') ∉ s.grants := by
      intro c c' hc hold
      obtain ⟨hle, hvote⟩ := h.granted n _ c' hold
      have hterm : srv.currentTerm = (s.server n).currentTerm := by
        have := hmove.term_le
        omega
      have hnone := (hmove.given c hc).2 hterm
      rw [hvote hterm.symm] at hnone
      cases hnone
    intro v t c c' hg hg'
    rcases mem_grants_put hg with hg | ⟨d, hd, hg⟩ <;>
      rcases mem_grants_put hg' with hg' | ⟨d', hd', hg'⟩
    · exact h.unique v t c c' hg hg'
    · cases hg'
      exact absurd hg (hfirst c' c hd')
    · cases hg
      exact absurd hg' (hfirst c c' hd)
    · cases hg
      cases hg'
      exact some.inj (hd.symm.trans hd')
  terms := by
    intro v
    show update s.highest n _ v ≤ (update s.server n srv v).currentTerm
    by_cases hv : v = n
    · subst hv
      rw [update_self, update_self]
      have := h.terms v
      have := hmove.term_le
      omega
    · rw [update_of_ne hv, update_of_ne hv]
      exact h.terms v
  __ := h
  responses := fun r hr hgranted =>
    ⟨grants_subset_put _ _ _ (h.responses r hr hgranted).1, (h.responses r hr hgranted).2⟩
  counted := by
    intro v
    rw [server_put]
    by_cases hv : v = n
    · subst hv
      rw [update_self]
      exact hcounted
    · rw [update_of_ne hv]
      exact fun hstate p hp => grants_subset_put _ _ _ (h.counted v hstate p hp)
  led := by
    intro v t hvt
    have hold : ∀ v t, (v, t) ∈ s.led →
        v < s.count ∧ (s.count = 1 ∨ Elected s.count (s.put n srv vote).grants v t) := by
      intro v t hvt
      obtain ⟨hlt, hwon⟩ := h.led v t hvt
      exact ⟨hlt, hwon.imp_right fun hwon => hwon.mono (grants_subset_put _ _ _)⟩
    change (v, t) ∈ (if _ then _ else _) at hvt
    split at hvt
    · next hnew =>
      rcases mem_append.mp hvt with hvt | hvt
      · exact hold v t hvt
      · cases mem_singleton.mp hvt
        obtain ⟨hlt, hwon⟩ := hled hnew.1 hnew.2
        exact ⟨hlt, hwon.imp_right fun hwon => hwon.mono (grants_subset_put _ _ _)⟩
    · exact hold v t hvt
  held := by
    intro hne
    rw [holders_put hmove.log_eq]
    exact h.held hne

/-- A move that makes no leader keeps the invariant. -/
theorem Inv.passive (h : Inv s) (hmove : Move (s.server n) srv vote)
    (hpassive : Server.Passive (s.server n) srv) : Inv (s.put n srv vote) := by
  refine h.move hmove ?_ ?_
  · intro hstate v hv
    obtain ⟨hstate', hvotes, hterm⟩ := hpassive.candidate hstate
    rw [hvotes] at hv
    rw [hterm]
    exact grants_subset_put _ _ _ (h.counted n hstate' v hv)
  · intro hnot hleader
    exact absurd (hpassive.leader hleader) hnot

/-! ## §4 Steps -/

/-- Votes that were counted had been given. -/
theorem elected_of_hasMajority (hn : n < count)
    (hvotes : ∀ v ∈ srv.votes, (v, srv.currentTerm, n) ∈ grants)
    (hself : srv.votedFor = some n → (n, srv.currentTerm, n) ∈ grants)
    (hmajority : srv.hasMajority count n = true) : Elected count grants n srv.currentTerm := by
  have hmany : count / 2 + 1 ≤ srv.nvotesForMe count n := (of_decide_eq_true hmajority).2
  rw [Server.nvotesForMe] at hmany
  have hothers : ∀ v ∈ (Finset.range count).filter (fun p => p ≠ n ∧ p ∈ srv.votes),
      (v, srv.currentTerm, n) ∈ grants := fun v hv => hvotes v (Finset.mem_filter.mp hv).2.2
  split at hmany
  · next hvoted =>
    refine ⟨insert n ((Finset.range count).filter fun p => p ≠ n ∧ p ∈ srv.votes), ?_, ?_, ?_⟩
    · exact Finset.insert_subset (Finset.mem_range.mpr hn) (Finset.filter_subset _ _)
    · rw [Finset.card_insert_of_notMem (by simp)]
      omega
    · intro v hv
      rcases Finset.mem_insert.mp hv with rfl | hv
      · exact hself hvoted
      · exact hothers v hv
  · exact ⟨_, Finset.filter_subset _ _, by omega, hothers⟩

/-- A timeout: the candidate votes for itself, in a term it has not voted in. -/
theorem Inv.timeout (h : Inv s) (hn : n < s.count) :
    Inv { s.put n ((s.server n).becomeCandidate n) (some n) with
      requests := s.requests ++ [((s.server n).becomeCandidate n).voteRequest n] } := by
  have hput : Inv (s.put n ((s.server n).becomeCandidate n) (some n)) :=
    h.move (Server.move_becomeCandidate _ n) (fun _ v hv => absurd hv (Finset.notMem_empty v))
      (fun _ hleader => by cases hleader)
  refine { hput with asked := ?_ }
  intro m hm
  rcases mem_append.mp hm with hm | hm
  · exact h.asked m hm
  · cases mem_singleton.mp hm
    exact hn

/-- A request: the vote is given at most once in a term. -/
theorem Inv.requestVote (h : Inv s) {m : VoteRequest} (hm : m ∈ s.requests) (recent : Bool) :
    Inv { s.put n ((s.server n).recvRequestVote m.received recent).1
        (if ((s.server n).recvRequestVote m.received recent).2 =
          true then some m.candidate else none) with
      responses := s.responses ++ [⟨n, m.candidate,
        ((s.server n).recvRequestVote m.received recent).1.currentTerm,
        ((s.server n).recvRequestVote m.received recent).2⟩] } := by
  obtain ⟨hmove, hterm⟩ := (s.server n).move_recvRequestVote m.received recent
  have hput := h.passive hmove ((s.server n).passive_recvRequestVote m.received recent)
  refine { hput with answered := ?_, responses := ?_ }
  · intro r hr
    rcases mem_append.mp hr with hr | hr
    · exact h.answered r hr
    · cases mem_singleton.mp hr
      exact h.asked m hm
  · intro r hr hgranted
    rcases mem_append.mp hr with hr | hr
    · exact hput.responses r hr hgranted
    · cases mem_singleton.mp hr
      constructor
      · show _ ∈ (s.put n _ (if _ then _ else _)).grants
        rw [if_pos hgranted]
        exact new_mem_put n _ m.candidate
      · show wire ((s.server n).recvRequestVote m.received recent).1.currentTerm = _
        rw [hterm hgranted]
        exact wire_wire m.term

/-- An answer: here a leader is made. -/
theorem Inv.voteResponse (h : Inv s) {r : VoteResponse} (hr : r ∈ s.responses) :
    Inv (s.put r.candidate ((s.server r.candidate).recvVoteResponse s.count r.candidate r.voter
      (wire r.term) r.granted) none) := by
  have hmove := (s.server r.candidate).move_recvVoteResponse s.count r.candidate r.voter
    (wire r.term) r.granted
  rcases (s.server r.candidate).recvVoteResponse_cases s.count r.candidate r.voter (wire r.term)
    r.granted with hpassive | ⟨hstate, hterm, hgranted, hresult⟩
  · exact h.passive hmove hpassive
  · obtain ⟨hgrant, hwire⟩ := h.responses r hr hgranted
    rw [hwire] at hterm
    have hvotes : ∀ v ∈ insert r.voter (s.server r.candidate).votes,
        (v, (s.server r.candidate).currentTerm, r.candidate) ∈ s.grants := by
      intro v hv
      rcases Finset.mem_insert.mp hv with rfl | hv
      · rw [hterm]
        exact hgrant
      · exact h.counted r.candidate hstate v hv
    rcases hresult with hresult | ⟨hmajority, hresult⟩
    · rw [hresult] at hmove ⊢
      refine h.move hmove (fun _ v hv => grants_subset_put _ _ _ (hvotes v hv)) ?_
      intro hnot hleader
      exact absurd hleader hnot
    · rw [hresult] at hmove ⊢
      refine h.move hmove (fun hcandidate => by cases hcandidate) fun _ _ => ?_
      have hlt := h.answered r hr
      exact ⟨hlt,
        Or.inr (elected_of_hasMajority hlt hvotes (h.voted r.candidate r.candidate) hmajority)⟩

/-- A log changes but keeps the committed entries. -/
theorem Inv.setLog (h : Inv s) {log : List LogEntry}
    (hkeep : s.committed <+: (s.server n).log → s.committed <+: log) :
    Inv { s with server := Function.update s.server n { s.server n with log := log } } := by
  have hfields : ∀ v, ∃ log', update s.server n { s.server n with log := log } v =
      { s.server v with log := log' } := by
    intro v
    by_cases hv : v = n
    · exact ⟨log, by simp [hv]⟩
    · exact ⟨_, update_of_ne hv ..⟩
  refine ⟨?_, ?_, h.unique, ?_, h.asked, h.answered, h.responses, ?_, h.led, ?_⟩
  · intro v
    obtain ⟨log', hv⟩ := hfields v
    simpa only [hv] using h.granted v
  · intro v
    obtain ⟨log', hv⟩ := hfields v
    simpa only [hv] using h.voted v
  · intro v
    obtain ⟨log', hv⟩ := hfields v
    simpa only [hv] using h.terms v
  · intro v
    obtain ⟨log', hv⟩ := hfields v
    simpa only [hv] using h.counted v
  · intro hne
    have hsub : s.holders s.committed ⊆ Cluster.holders
        { s with server := update s.server n { s.server n with log := log } } s.committed := by
      intro v hv
      obtain ⟨hrange, hprefix⟩ := Finset.mem_filter.mp hv
      refine Finset.mem_filter.mpr ⟨hrange, ?_⟩
      by_cases hvn : v = n
      · subst hvn
        simp only [update_self]
        exact hkeep hprefix
      · simp only [update_of_ne hvn]
        exact hprefix
    exact lt_of_lt_of_le (h.held hne) (Nat.mul_le_mul_left 2 (Finset.card_le_card hsub))

/-- A restart is a move only for a server that had nothing to forget. -/
theorem move_raftNew (hterm : srv.currentTerm = 0) (hvote : srv.votedFor = none)
    (hlog : srv.log = []) : Move srv .raftNew none :=
  srv.move_same hterm.symm hvote.symm hlog.symm

/-- Every event that is allowed keeps the invariant. -/
theorem Inv.step {e : ElectionEvent} (h : Inv s) (hcond : s.Unstained e)
    (hs : s.step e = some s') : Inv s' := by
  cases e with
  | timeout n =>
    obtain ⟨hguard, ⟨⟩⟩ := ite_none_right_eq_some.mp hs
    exact h.timeout hguard.1
  | alone n =>
    obtain ⟨hguard, ⟨⟩⟩ := ite_none_right_eq_some.mp hs
    exact h.move (Server.move_same _ rfl rfl rfl) (fun hcandidate => by cases hcandidate)
      (fun _ _ => ⟨hguard.1, Or.inl hguard.2⟩)
  | requestVote n i recent =>
    rw [Cluster.step] at hs
    split at hs
    · cases hs
    · next m hm =>
      obtain ⟨hguard, ⟨⟩⟩ := ite_none_right_eq_some.mp hs
      exact h.requestVote (mem_of_getElem? hm) recent
  | voteResponse i =>
    rw [Cluster.step] at hs
    split at hs
    · cases hs
    · next r hr =>
      cases hs
      exact h.voteResponse (mem_of_getElem? hr)
  | appendEntries n term sender =>
    obtain ⟨-, ⟨⟩⟩ := ite_none_right_eq_some.mp hs
    exact h.passive (Server.move_recvAppendEntries _ term sender)
      (Server.passive_recvAppendEntries _ term sender)
  | appendResponse n term =>
    obtain ⟨-, ⟨⟩⟩ := ite_none_right_eq_some.mp hs
    exact h.passive (Server.move_recvAppendResponse _ term)
      (Server.passive_recvAppendResponse _ term)
  | setLog n log =>
    obtain ⟨hguard, ⟨⟩⟩ := ite_none_right_eq_some.mp hs
    exact h.setLog hguard.2
  | commit entries =>
    obtain ⟨hguard, ⟨⟩⟩ := ite_none_right_eq_some.mp hs
    exact { h with held := fun _ => hguard.2 }
  | restart n =>
    obtain ⟨-, ⟨⟩⟩ := ite_none_right_eq_some.mp hs
    obtain ⟨hterm, hvote, hlog⟩ := hcond
    exact h.passive (move_raftNew hterm hvote hlog) (Server.passive_of_follower _ rfl)

/-! ## §5 Runs -/

/-- In a run whose nodes restart only while they have nothing to lose, every state
reached has one vote per node and term, no term that went back, one leader per
term and the committed entries on a majority. -/
theorem voteSafe_of_unstained (count : Nat) (events : List ElectionEvent)
    (hcond : Along step Unstained events (start count))
    (hrun : run step events (start count) = some s) : s.VoteSafe :=
  (invariant_of_run (fun _ _ _ h hc hs => h.step hc hs) (inv_start count) hcond hrun).voteSafe

/-- Node 1 of three is elected, after node 0 was restarted with nothing to lose. -/
def quietElection : List ElectionEvent := [
  .restart 0, .timeout 1, .requestVote 0 0 false, .voteResponse 0]

theorem quietElection_safe : ∃ s, run step quietElection (start 3) = some s ∧
    s.led = [(1, 1)] ∧ s.VoteSafe := by
  refine exists_some_of_any (P := fun s => s.led = [(1, 1)]) (by decide +kernel) fun s hrun hs =>
    ⟨hs, ?_⟩
  exact voteSafe_of_unstained 3 quietElection (by decide +kernel) hrun

/-- Nodes 1 and 2 ask for votes in term 1; node 0 votes for the one, is restarted, and
votes for the other. -/
def splitVote : List ElectionEvent := [
  .timeout 1, .timeout 2, .requestVote 0 0 false, .restart 0, .requestVote 0 1 false,
  .voteResponse 0, .voteResponse 1]

/-- An entry is committed by nodes 0 and 1, and node 1 is restarted. -/
def lostEntry : List ElectionEvent := [
  .timeout 0, .requestVote 1 0 false, .voteResponse 0, .setLog 0 [⟨1, 7⟩], .setLog 1 [⟨1, 7⟩],
  .commit [⟨1, 7⟩], .restart 1]

/-- Node 0 votes twice in term 1, which then has two leaders; and a restart of one
node takes a committed entry from the majority and the node's term back. -/
theorem restart_splits_vote :
    (∃ s, run step splitVote (start 3) = some s ∧
      (0, 1, 1) ∈ s.grants ∧ (0, 1, 2) ∈ s.grants ∧ s.led = [(1, 1), (2, 1)] ∧ ¬s.VoteSafe) ∧
    ∃ s, run step lostEntry (start 3) = some s ∧
      s.highest 1 = 1 ∧ (s.server 1).currentTerm = 0 ∧ s.committed = [⟨1, 7⟩] ∧
      (s.holders s.committed).card = 1 ∧ ¬s.VoteSafe := by
  constructor
  · refine exists_some_of_any (P := fun s => (0, 1, 1) ∈ s.grants ∧ (0, 1, 2) ∈ s.grants ∧
      s.led = [(1, 1), (2, 1)]) (by decide +kernel) ?_
    rintro s - ⟨hfirst, hsecond, hled⟩
    refine ⟨hfirst, hsecond, hled, fun hsafe => ?_⟩
    exact absurd (hsafe.votes 0 1 1 2 hfirst hsecond) (by decide)
  · refine exists_some_of_any (P := fun s => s.highest 1 = 1 ∧ (s.server 1).currentTerm = 0 ∧
      s.committed = [⟨1, 7⟩] ∧ (s.holders s.committed).card = 1) (by decide +kernel) ?_
    rintro s - ⟨hhighest, hterm, hcommitted, hcard⟩
    refine ⟨hhighest, hterm, hcommitted, hcard, fun hsafe => ?_⟩
    have := hsafe.terms 1
    omega

end Cluster

end SsoSystem.Raft
