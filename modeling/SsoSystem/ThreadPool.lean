/-
SsoSystem.ThreadPool — the queue of accepted connections and the workers that
take them (`pool_init`, `pool_submit`, `pool_shutdown` and `worker_thread` in
src/server.c).

A step is what a thread does while it holds the lock. A worker that finds
nothing to do waits until it is signalled, or wakes up for no reason; which of
the waiting workers `pthread_cond_signal` picks is left open. The thread that
submits is the one that shuts the pool down, so nothing is submitted after that.
-/
import Mathlib.Data.Nat.ModEq
import SsoSystem.Lib.Run

namespace SsoSystem

open List Run

/-! ## §1 The pool -/

/-- Where a worker is: at work or at the lock, in `pthread_cond_wait`, or gone. -/
inductive WorkerState where
  | ready | waiting | exited
  deriving DecidableEq

/-- The ring, with what was submitted and refused and what each worker took. -/
structure Pool (α : Type) where
  queue : Nat → α
  queueSize : Nat
  head : Nat := 0
  tail : Nat := 0
  count : Nat := 0
  stop : Bool := false
  workers : List WorkerState
  accepted : List α := []
  closed : List α := []
  taken : List (Nat × α) := []

/-- A lock section; `signalled` is the worker `pthread_cond_signal` picks. -/
inductive PoolEvent (α : Type) where
  | submit (conn : α) (signalled : Nat)
  | wait (worker : Nat)
  | wake (worker : Nat)
  | take (worker : Nat)
  | exit (worker : Nat)
  | shutdown

namespace Pool

variable {α : Type}

/-- `pool_init`, with the numbers of the configuration. -/
def init [Inhabited α] (poolSize queueSize : Int) : Pool α where
  queue := fun _ => default
  queueSize := (max 1 queueSize).toNat
  workers := replicate (max 1 (min 256 poolSize)).toNat .ready

/-- `pthread_cond_signal`. -/
def signal (workers : List WorkerState) (w : Nat) : Option (List WorkerState) :=
  if .waiting ∈ workers then
    if workers[w]? = some .waiting then some (workers.set w .ready) else none
  else some workers

def step (p : Pool α) : PoolEvent α → Option (Pool α)
  | .submit conn w =>
    if p.stop then none
    else if p.count < p.queueSize then
      (signal p.workers w).map fun workers =>
        { p with
          queue := Function.update p.queue p.tail conn
          tail := (p.tail + 1) % p.queueSize
          count := p.count + 1
          accepted := p.accepted ++ [conn]
          workers }
    else some { p with closed := p.closed ++ [conn] }
  | .wait w =>
    if p.workers[w]? = some .ready ∧ p.count = 0 ∧ p.stop = false then
      some { p with workers := p.workers.set w .waiting }
    else none
  | .wake w =>
    if p.workers[w]? = some .waiting then some
      { p with workers := p.workers.set w .ready } else none
  | .take w =>
    if p.workers[w]? = some .ready ∧ 0 < p.count then
      some { p with
        head := (p.head + 1) % p.queueSize
        count := p.count - 1
        taken := p.taken ++ [(w, p.queue p.head)] }
    else none
  | .exit w =>
    if p.workers[w]? = some .ready ∧ p.stop = true ∧ p.count = 0 then
      some { p with workers := p.workers.set w .exited }
    else none
  | .shutdown =>
    some { p with
      stop := true
      workers := p.workers.map fun s => if s = .waiting then .ready else s }

/-- The tasks in the ring, the oldest first. -/
def queued (p : Pool α) : List α :=
  (range p.count).map fun i => p.queue ((p.head + i) % p.queueSize)

/-! ## §2 The invariant -/

/-- A worker that waits leaves at least one worker awake for each task. -/
structure Inv (p : Pool α) : Prop where
  head : p.head < p.queueSize
  tail : p.tail = (p.head + p.count) % p.queueSize
  fits : p.count ≤ p.queueSize
  fifo : p.accepted = p.taken.map Prod.snd ++ p.queued
  awake : .waiting ∈ p.workers → p.count ≤ p.workers.count .ready
  exits : .exited ∈ p.workers → p.stop = true ∧ p.count = 0
  some_worker : p.workers ≠ []

variable {p p' : Pool α} {w : Nat}

theorem inv_init [Inhabited α] (poolSize queueSize : Int) :
    Inv (init poolSize queueSize : Pool α) where
  head := by simp only [init]; omega
  tail := by simp [init]
  fits := Nat.zero_le _
  fifo := rfl
  awake := fun _ => Nat.zero_le _
  exits := by simp [init]
  some_worker := by simp only [init, ne_eq, replicate_eq_nil_iff]; omega

theorem queued_submit (h : Inv p) (hroom : p.count < p.queueSize) (conn : α) :
    ({ p with queue := Function.update p.queue p.tail conn, count := p.count + 1 } : Pool α).queued
      =
      p.queued ++ [conn] := by
  simp only [queued, range_succ, map_append, map_singleton, ← h.tail, Function.update_self]
  congr 1
  refine map_congr_left fun i hi => Function.update_of_ne ?_ _ _
  -- fewer tasks than cells, so the tail is none of their cells
  rw [h.tail]
  intro heq
  have hi := mem_range.mp hi
  exact absurd (Nat.ModEq.add_left_cancel' p.head heq) (by
    rw [Nat.ModEq, Nat.mod_eq_of_lt (by omega), Nat.mod_eq_of_lt hroom]
    omega)

theorem queued_take (h : Inv p) (hcount : 0 < p.count) : p.queued = p.queue p.head ::
    ({ p with head := (p.head + 1) % p.queueSize, count := p.count - 1 } : Pool α).queued := by
  obtain ⟨n, hn⟩ : ∃ n, p.count = n + 1 := ⟨p.count - 1, by omega⟩
  simp only [queued, hn, Nat.add_sub_cancel, range_succ_eq_map, map_cons, map_map]
  simp [Function.comp_def, Nat.add_assoc, Nat.add_comm 1, Nat.mod_eq_of_lt h.head]

theorem mem_of_mem_set {l : List WorkerState} {a b : WorkerState} (h : a ∈ l.set w b)
    (hne : a ≠ b) :
    a ∈ l :=
  (mem_or_eq_of_mem_set h).resolve_right hne

theorem count_ready_set {l : List WorkerState} (h : l[w]? = some .waiting) :
    (l.set w .ready).count .ready = l.count .ready + 1 := by
  obtain ⟨hlt, hw⟩ := List.getElem?_eq_some_iff.mp h
  simp [count_set hlt, hw]

theorem signal_cases {l l' : List WorkerState} (h : signal l w = some l') :
    .waiting ∉ l ∧ l' = l ∨ l[w]? = some .waiting ∧ l' = l.set w .ready := by
  unfold signal at h
  split at h
  · obtain ⟨hw, ⟨⟩⟩ := Option.ite_none_right_eq_some.mp h
    exact .inr ⟨hw, rfl⟩
  · next hnone => exact .inl ⟨hnone, (Option.some.inj h).symm⟩

theorem step_inv (h : Inv p) {e : PoolEvent α} (hstep : p.step e = some p') : Inv p' := by
  cases e with
  | submit conn w =>
    obtain ⟨hstop, hstep⟩ := Option.ite_none_left_eq_some.mp hstep
    split at hstep
    · next hroom =>
      obtain ⟨workers, hsignal, rfl⟩ := Option.map_eq_some_iff.mp hstep
      have hexits : .exited ∉ p.workers := fun hmem => hstop (h.exits hmem).1
      refine ⟨h.head, ?_, hroom, ?_, ?_, ?_, ?_⟩
      · simp [h.tail, Nat.add_assoc]
      · exact (congrArg (· ++ [conn]) h.fifo).trans ((append_assoc ..).trans
          (congrArg _ (queued_submit h hroom conn).symm))
      · rcases signal_cases hsignal with ⟨hnone, rfl⟩ | ⟨hw, rfl⟩
        · exact fun hmem => absurd hmem hnone
        · intro _
          rw [count_ready_set hw]
          exact Nat.succ_le_succ (h.awake (mem_of_getElem? hw))
      · rcases signal_cases hsignal with ⟨-, rfl⟩ | ⟨-, rfl⟩
        · exact fun hmem => absurd hmem hexits
        · exact fun hmem => absurd (mem_of_mem_set hmem (by decide)) hexits
      · rcases signal_cases hsignal with ⟨-, rfl⟩ | ⟨-, rfl⟩
        · exact h.some_worker
        · simpa using h.some_worker
    · cases hstep
      exact { h with }
  | wait w =>
    obtain ⟨⟨hw, hcount, hstop⟩, ⟨⟩⟩ := Option.ite_none_right_eq_some.mp hstep
    exact { h with
      awake := fun _ => hcount ▸ Nat.zero_le _
      exits := fun hmem => h.exits (mem_of_mem_set hmem (by decide))
      some_worker := by simpa using h.some_worker }
  | wake w =>
    obtain ⟨hw, ⟨⟩⟩ := Option.ite_none_right_eq_some.mp hstep
    refine { h with awake := fun hmem => ?_, exits := fun hmem => ?_, some_worker := ?_ }
    · exact (h.awake (mem_of_getElem? hw)).trans (by rw [count_ready_set hw]; omega)
    · exact h.exits (mem_of_mem_set hmem (by decide))
    · simpa using h.some_worker
  | take w =>
    obtain ⟨⟨hw, hcount⟩, ⟨⟩⟩ := Option.ite_none_right_eq_some.mp hstep
    have hpos : 0 < p.queueSize := Nat.zero_lt_of_lt h.head
    refine { h with
      head := Nat.mod_lt _ hpos, tail := ?_, fits := ?_, fifo := ?_, awake := ?_, exits := ?_ }
    · simp only [h.tail, Nat.mod_add_mod]
      congr 1
      omega
    · exact (Nat.sub_le ..).trans h.fits
    · exact h.fifo.trans (by rw [queued_take h hcount, map_append, append_assoc]; rfl)
    · exact fun hmem => (Nat.sub_le ..).trans (h.awake hmem)
    · exact fun hmem => absurd (h.exits hmem).2 (Nat.ne_of_gt hcount)
  | exit w =>
    obtain ⟨⟨hw, hstop, hcount⟩, ⟨⟩⟩ := Option.ite_none_right_eq_some.mp hstep
    exact { h with
      awake := fun _ => hcount ▸ Nat.zero_le _
      exits := fun _ => ⟨hstop, hcount⟩
      some_worker := by simpa using h.some_worker }
  | shutdown =>
    cases hstep
    refine { h with awake := fun hmem => ?_, exits := fun hmem => ?_, some_worker := ?_ }
    · obtain ⟨s, -, hs⟩ := mem_map.mp hmem
      split at hs <;> simp_all
    · obtain ⟨s, hs, heq⟩ := mem_map.mp hmem
      split at heq
      · cases heq
      · exact ⟨rfl, (h.exits (heq ▸ hs)).2⟩
    · simpa using h.some_worker

/-! ## §3 Runs -/

/-- **The pool is a bounded queue.** In every state of a run: what was accepted is what the
workers took, each task once and in its order, and what is queued; a connection is closed
exactly if the queue is full, and goes behind the queued ones otherwise; some worker can take
a task as long as there is one; and workers have only exited when there is none. -/
theorem pool_is_fifo [Inhabited α] (poolSize queueSize : Int) {events : List (PoolEvent α)}
    (hrun : run step events (init poolSize queueSize) = some p) :
    p.accepted = p.taken.map Prod.snd ++ p.queued ∧ p.count = p.queued.length ∧
    (∀ conn w p', p.step (.submit conn w) = some p' →
      if p.queued.length = p.queueSize then p'.closed = p.closed ++ [conn] ∧ p'.queued = p.queued
      else p'.closed = p.closed ∧ p'.queued = p.queued ++ [conn]) ∧
    (p.queued ≠ [] → ∃ w p', p.step (.take w) = some p') ∧
    (.exited ∈ p.workers → p.stop = true ∧ p.queued = []) := by
  have h : Inv p := invariant_of_steps (fun _ _ _ h => step_inv h) (inv_init ..) hrun
  have hlen : p.queued.length = p.count := by simp [queued]
  refine ⟨h.fifo, hlen.symm, fun conn w p' hstep => ?_, fun hne => ?_, fun hmem => ?_⟩
  · obtain ⟨-, hstep⟩ := Option.ite_none_left_eq_some.mp hstep
    rw [hlen]
    split at hstep
    · next hroom =>
      obtain ⟨workers, -, rfl⟩ := Option.map_eq_some_iff.mp hstep
      rw [if_neg (Nat.ne_of_lt hroom)]
      exact ⟨rfl, queued_submit h hroom conn⟩
    · next hfull =>
      cases hstep
      rw [if_pos (Nat.le_antisymm h.fits (Nat.le_of_not_lt hfull))]
      exact ⟨rfl, rfl⟩
  · have hcount : 0 < p.count := hlen ▸ length_pos_iff.mpr hne
    have hready : .ready ∈ p.workers := by
      by_cases hwait : .waiting ∈ p.workers
      · exact count_pos_iff.mp (Nat.lt_of_lt_of_le hcount (h.awake hwait))
      · obtain ⟨s, hs⟩ := exists_mem_of_ne_nil _ h.some_worker
        cases s with
        | ready => exact hs
        | waiting => exact absurd hs hwait
        | exited => exact absurd (h.exits hs).2 (Nat.ne_of_gt hcount)
    obtain ⟨w, hw⟩ := mem_iff_getElem?.mp hready
    exact ⟨w, _, if_pos ⟨hw, hcount⟩⟩
  · obtain ⟨hstop, hcount⟩ := h.exits hmem
    exact ⟨hstop, length_eq_zero_iff.mp (hlen.trans hcount)⟩

/-- A queue of one cell: the second connection is closed, the first is taken. -/
theorem oneCell_fifo : ∃ p, run step [.submit 7 0, .submit 8 0, .take 0, .shutdown, .exit 0]
    (init 1 1 : Pool Nat) = some p ∧ p.closed = [8] ∧ p.accepted = p.taken.map Prod.snd ++
      p.queued :=
  have hrun := rfl
  ⟨_, hrun, rfl, (pool_is_fifo 1 1 hrun).1⟩

end Pool

end SsoSystem
